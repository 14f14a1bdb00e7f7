import Handover.Proofs.Program.SecondWalk
import Mathlib.Algebra.GroupWithZero.Nat

/-!
# Counting while writing

The statistics of a body are read off its references (`Body.stats`). The second walk can also keep
them while it writes (`tallyBody`): a decision is entered when its use is resolved, and a counter
goes up on the branch that it is for, so that the hold of the caller, whose uses are resolved
without a reference, is not counted. A computation that counts in this way does to the ledger what
the plain one does, and what it adds to the decisions and to the counters stands in the value that
it gives (`Tallies`). Such computations compose, and so both ways give the same decisions and the
same statistics (`tallyBody_eq_ok`).
-/

set_option autoImplicit false
set_option relaxedAutoImplicit false

namespace Handover

/-- What is kept while a body is written: the ledger, the decisions so far, and how the references
so far were written. -/
structure Tally where
  ledger : Ledger
  decisions : List Decision := []
  stats : Stats := {}

/-- A computation on a tally, which is kept when the computation fails. -/
abbrev Tallying (α : Type) : Type := Stateful Tally α

namespace Tallying

/-- Runs a computation on the ledger. -/
def onLedger {α : Type} (computation : Bookkeeping α) : Tallying α := fun tally ↦
  ((computation tally.ledger).1, { tally with ledger := (computation tally.ledger).2 })

/-- Puts a decision at the end of those so far. -/
def enter (decision : Decision) : Tallying Unit := fun tally ↦
  (.ok (), { tally with decisions := tally.decisions ++ [decision] })

/-- Moves the counters on. -/
def count (change : Stats → Stats) : Tallying Unit := fun tally ↦
  (.ok (), { tally with stats := change tally.stats })

end Tallying

/-! ### The second walk with counters -/

section Emit

open Tallying

variable (ops : List Op) (graph : Graph) (style : ReferenceStyle)

/-- Resolves one read of a graph at a site and writes its reference. A copy is counted where it is
written, and every use that is resolved is counted by its decision. -/
def tallyReference (site : Site) (name : String) (owned : Bool) : Tallying Reference := do
  if graph.isConstant name then
    if owned then
      count fun stats ↦ { stats with clones := stats.clones + 1 }
    onLedger (Bookkeeping.lift (constantReference style name owned))
  else
    let decision ← onLedger (resolveUse graph site name)
    enter decision
    count fun stats ↦ { stats with uses := stats.uses + 1 }
    if decision.isMove then
      count fun stats ↦ { stats with moves := stats.moves + 1 }
    else
      count fun stats ↦ { stats with duplicates := stats.duplicates + 1 }
    if owned && !decision.isMove then
      count fun stats ↦ { stats with clones := stats.clones + 1 }
    onLedger (Bookkeeping.lift (variableReference style decision owned))

/-- Resolves the reads of a node at an index and writes its statement, which is counted when it owns
its first input. -/
def tallyStatement (node : Node) (index : Nat) : Tallying Statement := do
  let owned ← onLedger (Bookkeeping.lift (ownsFirstInput ops graph node))
  let site : Site := ⟨some node.id, index⟩
  let references ← node.inputs.zipIdx.mapM fun entry ↦
    tallyReference graph style site entry.1 (owned && entry.2 == 0)
  if owned then
    count fun stats ↦ { stats with inPlace := stats.inPlace + 1 }
  let expression ← onLedger (Bookkeeping.lift
    (nodeExpression ops graph node (references.map Reference.text)))
  return ⟨node, owned, references, expression⟩

/-- Resolves every use in program order and writes the body. The holds of the caller are released
without being counted. -/
def tallyBody : Tallying Body := do
  let statements ← graph.nodes.zipIdx.mapM fun entry ↦
    tallyStatement ops graph style entry.1 entry.2
  let returned ← graph.outputs.mapM fun name ↦
    tallyReference graph style graph.returnSite name true
  graph.inputs.forM fun name ↦ do
    let _ ← onLedger (resolveUse graph ⟨none, 0⟩ name)
  return ⟨statements, returned⟩

end Emit

/-! ### What is added -/

/-- The statistics after more references were written, and more statements that own their first
input. -/
def Stats.plus (stats : Stats) (references : List Reference) (inPlace : Nat) : Stats where
  uses := stats.uses + (references.filterMap Reference.decision).length
  duplicates := stats.duplicates +
    (references.filterMap Reference.decision).countP fun decision ↦ !decision.isMove
  moves := stats.moves + (references.filterMap Reference.decision).countP Decision.isMove
  clones := stats.clones + references.countP Reference.isClone
  inPlace := stats.inPlace + inPlace

@[simp] theorem Stats.plus_nil (stats : Stats) : stats.plus [] 0 = stats := by
  simp [plus]

theorem Stats.plus_plus (stats : Stats) (references more : List Reference)
    (inPlace moreInPlace : Nat) :
    (stats.plus references inPlace).plus more moreInPlace =
      stats.plus (references ++ more) (inPlace + moreInPlace) := by
  simp [plus, Int.add_assoc]

/-- The statistics of a body are those of its references and of its statements. -/
theorem Body.stats_eq_plus (body : Body) :
    body.stats = Stats.plus {} body.references (body.statements.countP Statement.owned) := by
  simp [stats, Stats.plus, decisions, List.countP_eq_length_filter]

/-- The tally on another ledger after more references were written, and more statements that own
their first input. -/
def Tally.plus (tally : Tally) (ledger : Ledger) (references : List Reference) (inPlace : Nat) :
    Tally where
  ledger := ledger
  decisions := tally.decisions ++ references.filterMap Reference.decision
  stats := tally.stats.plus references inPlace

theorem Tally.plus_nil (tally : Tally) (ledger : Ledger) :
    tally.plus ledger [] 0 = { tally with ledger } := by
  simp [plus]

theorem Tally.plus_plus (tally : Tally) (ledger final : Ledger) (references more : List Reference)
    (inPlace moreInPlace : Nat) :
    (tally.plus ledger references inPlace).plus final more moreInPlace =
      tally.plus final (references ++ more) (inPlace + moreInPlace) := by
  simp [plus, Stats.plus_plus]

/-! ### Computations that count -/

variable {α β : Type}

/-- A computation that counts does to the ledger what a plain one does. When it gives a value, it
has added some references and statements to the tally that are related to the value. -/
def Tallies (counting : Tallying α) (plain : Bookkeeping α)
    (related : α → List Reference → Nat → Prop) : Prop :=
  ∀ tally : Tally,
    (∃ value ledger references inPlace, plain tally.ledger = (.ok value, ledger) ∧
      counting tally = (.ok value, tally.plus ledger references inPlace) ∧
      related value references inPlace) ∨
    ∃ err reached, plain tally.ledger = (.error err, reached.ledger) ∧
      counting tally = (.error err, reached)

namespace Tallies

variable {counting : Tallying α} {plain : Bookkeeping α} {related : α → List Reference → Nat → Prop}

theorem mono (htallies : Tallies counting plain related)
    {weaker : α → List Reference → Nat → Prop}
    (hweaker : ∀ value references inPlace, related value references inPlace →
      weaker value references inPlace) : Tallies counting plain weaker := by
  intro tally
  rcases htallies tally with
    ⟨value, ledger, references, inPlace, hplain, hcounting, hrelated⟩ | hfailed
  · exact .inl ⟨value, ledger, references, inPlace, hplain, hcounting, hweaker _ _ _ hrelated⟩
  · exact .inr hfailed

/-- A computation on the ledger that writes nothing. -/
theorem onLedger (plain : Bookkeeping α) :
    Tallies (Tallying.onLedger plain) plain fun _ references inPlace ↦
      references = [] ∧ inPlace = 0 := by
  intro tally
  rcases hplain : plain tally.ledger with ⟨err | value, ledger⟩
  · refine .inr ⟨err, { tally with ledger }, rfl, ?_⟩
    rw [Tallying.onLedger, hplain]
  · refine .inl ⟨value, ledger, [], 0, rfl, ?_, rfl, rfl⟩
    rw [Tallying.onLedger, hplain, Tally.plus_nil]

theorem pure (value : α) :
    Tallies (Pure.pure value) (Pure.pure value) fun other references inPlace ↦
      other = value ∧ references = [] ∧ inPlace = 0 := by
  intro tally
  refine .inl ⟨value, tally.ledger, [], 0, rfl, ?_, rfl, rfl, rfl⟩
  rw [Tally.plus_nil]
  rfl

/-- Two computations in sequence add what each of them adds. -/
theorem bind {counting : Tallying α} {plain : Bookkeeping α} {next : α → Tallying β}
    {plainNext : α → Bookkeeping β} {more : α → β → List Reference → Nat → Prop}
    (hfirst : Tallies counting plain related)
    (hnext : ∀ value, Tallies (next value) (plainNext value) (more value)) :
    Tallies (counting >>= next) (plain >>= plainNext) fun other references inPlace ↦
      ∃ value written others owned othersOwned, related value written owned ∧
        more value other others othersOwned ∧ references = written ++ others ∧
        inPlace = owned + othersOwned := by
  intro tally
  rw [Stateful.run_bind, Stateful.run_bind]
  rcases hfirst tally with
    ⟨value, ledger, written, owned, hplain, hcounting, hrelated⟩ | ⟨err, reached, hplain, hcounting⟩
  · rw [hplain, hcounting]
    rcases hnext value (tally.plus ledger written owned) with
      ⟨other, final, others, othersOwned, hrest, hcountingRest, hmore⟩ |
        ⟨err, reached, hrest, hcountingRest⟩
    · refine .inl ⟨other, final, written ++ others, owned + othersOwned, hrest, ?_, value, written,
        others, owned, othersOwned, hrelated, hmore, rfl, rfl⟩
      dsimp only
      rw [hcountingRest, Tally.plus_plus]
    · exact .inr ⟨err, reached, hrest, hcountingRest⟩
  · rw [hplain, hcounting]
    exact .inr ⟨err, reached, rfl, rfl⟩

/-- The items of a list add what is written for each of them. -/
theorem mapM {γ : Type} {counting : γ → Tallying α} {plain : γ → Bookkeeping α}
    {written : α → List Reference} {owned : α → Nat}
    (hcall : ∀ item, Tallies (counting item) (plain item) fun value references inPlace ↦
      references = written value ∧ inPlace = owned value) (items : List γ) :
    Tallies (items.mapM counting) (items.mapM plain) fun values references inPlace ↦
      references = values.flatMap written ∧ inPlace = (values.map owned).sum := by
  induction items with
  | nil =>
    refine (pure []).mono ?_
    rintro _ _ _ ⟨rfl, rfl, rfl⟩
    exact ⟨rfl, rfl⟩
  | cons item rest ih =>
    rw [List.mapM_cons, List.mapM_cons]
    refine ((hcall item).bind fun value ↦ ih.bind fun values ↦ pure (value :: values)).mono ?_
    rintro _ _ _ ⟨value, _, _, _, _, ⟨rfl, rfl⟩, ⟨values, _, _, _, _, ⟨rfl, rfl⟩,
      ⟨rfl, rfl, rfl⟩, rfl, rfl⟩, rfl, rfl⟩
    simp

/-- Calls that write nothing. -/
theorem forM {γ : Type} {counting : γ → Tallying Unit} {plain : γ → Bookkeeping Unit}
    (hcall : ∀ item, Tallies (counting item) (plain item) fun _ references inPlace ↦
      references = [] ∧ inPlace = 0) (items : List γ) :
    Tallies (items.forM counting) (items.forM plain) fun _ references inPlace ↦
      references = [] ∧ inPlace = 0 := by
  induction items with
  | nil =>
    refine (pure ()).mono ?_
    rintro _ _ _ ⟨_, hnothing⟩
    exact hnothing
  | cons item rest ih =>
    rw [List.forM_eq_forM, List.forM_eq_forM, List.forM_cons, List.forM_cons]
    refine ((hcall item).bind fun _ ↦ ih).mono ?_
    rintro _ _ _ ⟨_, _, _, _, _, ⟨rfl, rfl⟩, ⟨rfl, rfl⟩, rfl, rfl⟩
    exact ⟨rfl, rfl⟩

end Tallies

/-! ### The two walks agree -/

section Agreement

variable (ops : List Op) (graph : Graph) (style : ReferenceStyle)

/-- The counters move as for any reference to a buffer in the same slot. -/
theorem tallyReference_constant {name : String} (hconstant : graph.isConstant name = true)
    (reference : Reference) (hdecision : reference.decision = none) (site : Site) (tally : Tally) :
    tallyReference graph style site name reference.owned tally =
      (constantReference style name reference.owned, tally.plus tally.ledger [reference] 0) := by
  have hclone : reference.isClone = reference.owned := by
    simp [Reference.isClone, Reference.isMove, hdecision]
  unfold tallyReference
  rw [if_pos hconstant]
  cases howned : reference.owned <;>
    simp [Tally.plus, Stats.plus, hdecision, hclone, howned, Tallying.count, Tallying.onLedger,
      Bookkeeping.lift, Stateful.run_bind]

/-- The counters move as for any reference with the decision in the same slot. -/
theorem tallyReference_variable {name : String} (hvariable : graph.isConstant name = false)
    {site : Site} {tally : Tally} {decision : Decision} {ledger : Ledger}
    (hresolve : resolveUse graph site name tally.ledger = (.ok decision, ledger))
    (reference : Reference) (hdecision : reference.decision = some decision) :
    tallyReference graph style site name reference.owned tally =
      (variableReference style decision reference.owned, tally.plus ledger [reference] 0) := by
  have hclone : reference.isClone = (reference.owned && !decision.isMove) := by
    simp [Reference.isClone, Reference.isMove, hdecision]
  unfold tallyReference
  rw [if_neg (by simp [hvariable])]
  cases howned : reference.owned <;> cases hmove : decision.isMove <;>
    simp [Tally.plus, Stats.plus, hdecision, hclone, howned, hmove, hresolve, Tallying.count,
      Tallying.enter, Tallying.onLedger, Bookkeeping.lift, Stateful.run_bind]

/-- A reference that is written is counted once, and as a copy when it is one. -/
theorem tallies_tallyReference (site : Site) (name : String) (owned : Bool) :
    Tallies (tallyReference graph style site name owned) (emitReference graph style site name owned)
      fun reference references inPlace ↦ references = [reference] ∧ inPlace = 0 := by
  intro tally
  unfold emitReference
  cases hname : graph.isConstant name with
  | true =>
    rw [if_pos rfl]
    cases hreference : constantReference style name owned with
    | ok reference =>
      obtain ⟨_, rfl, hdecision⟩ := constantReference_eq_ok hreference
      refine .inl ⟨reference, tally.ledger, [reference], 0, rfl, ?_, rfl, rfl⟩
      rw [tallyReference_constant graph style hname reference hdecision, hreference]
    | error err =>
      have hrun :=
        tallyReference_constant graph style hname ⟨"", owned, none, ""⟩ rfl site tally
      rw [hreference] at hrun
      exact .inr ⟨err, tally.plus tally.ledger [⟨"", owned, none, ""⟩] 0, rfl, hrun⟩
  | false =>
    rw [if_neg Bool.false_ne_true, Stateful.run_bind]
    rcases hresolve : resolveUse graph site name tally.ledger with ⟨err | decision, ledger⟩
    · refine .inr ⟨err, { tally with ledger }, rfl, ?_⟩
      unfold tallyReference
      rw [if_neg (by simp [hname]), Stateful.run_bind, Tallying.onLedger, hresolve]
    · cases hreference : variableReference style decision owned with
      | ok reference =>
        obtain ⟨_, rfl, hdecision⟩ := variableReference_eq_ok hreference
        refine .inl ⟨reference, ledger, [reference], 0, congrArg (·, ledger) hreference, ?_, rfl,
          rfl⟩
        rw [tallyReference_variable graph style hname hresolve reference hdecision, hreference]
      | error err =>
        have hrun := tallyReference_variable graph style hname hresolve
          ⟨"", owned, some decision, ""⟩ rfl
        rw [hreference] at hrun
        exact .inr ⟨err, tally.plus ledger [⟨"", owned, some decision, ""⟩] 0,
          congrArg (·, ledger) hreference, hrun⟩

/-- The references of some slots are each counted once. -/
theorem tallies_references {γ : Type} (site : Site) (name : γ → String) (owned : γ → Bool)
    (slots : List γ) :
    Tallies (slots.mapM fun slot ↦ tallyReference graph style site (name slot) (owned slot))
      (slots.mapM fun slot ↦ emitReference graph style site (name slot) (owned slot))
      fun written references inPlace ↦ references = written ∧ inPlace = 0 := by
  refine (Tallies.mapM (fun slot ↦
    tallies_tallyReference graph style site (name slot) (owned slot)) slots).mono ?_
  rintro written _ _ ⟨rfl, rfl⟩
  simp

/-- A counter that goes up before a computation that is plain otherwise. -/
theorem tallies_count_inPlace {owned : Bool} {counting : Tallying α} {plain : Bookkeeping α}
    {related : α → List Reference → Nat → Prop} (htallies : Tallies counting plain related) :
    Tallies
      (if owned then
        Tallying.count (fun stats ↦ { stats with inPlace := stats.inPlace + 1 }) >>=
          fun _ ↦ counting
      else counting)
      plain fun value references inPlace ↦
        ∃ later, related value references later ∧ inPlace = owned.toNat + later := by
  intro tally
  cases owned with
  | false =>
    simpa using htallies tally
  | true =>
    have hcounted := htallies (tally.plus tally.ledger [] 1)
    have hrun : (Tallying.count (fun stats ↦ { stats with inPlace := stats.inPlace + 1 }) >>=
        fun _ ↦ counting) tally = counting (tally.plus tally.ledger [] 1) := by
      rw [Stateful.run_bind]
      simp [Tallying.count, Tally.plus, Stats.plus]
    rw [if_pos rfl, hrun]
    rcases hcounted with ⟨value, ledger, references, later, hplain, hcounting, hrelated⟩ | hfailed
    · refine .inl ⟨value, ledger, references, 1 + later, hplain, ?_, later, hrelated, rfl⟩
      rw [hcounting, Tally.plus_plus, List.nil_append]
    · exact .inr hfailed

/-- A statement that is written is counted when it owns its first input. -/
theorem tallies_tallyStatement (node : Node) (index : Nat) :
    Tallies (tallyStatement ops graph style node index) (emitStatement ops graph style node index)
      fun statement references inPlace ↦
        references = statement.references ∧ inPlace = statement.owned.toNat := by
  have howned := Tallies.onLedger (Bookkeeping.lift (ownsFirstInput ops graph node))
  have hreferences := fun owned ↦ tallies_references graph style ⟨some node.id, index⟩ Prod.fst
    (fun slot ↦ owned && slot.2 == 0) node.inputs.zipIdx
  have hexpression := fun owned references ↦ (Tallies.onLedger (Bookkeeping.lift
    (nodeExpression ops graph node (references.map Reference.text)))).bind fun expression ↦
      Tallies.pure (⟨node, owned, references, expression⟩ : Statement)
  refine (howned.bind fun owned ↦ (hreferences owned).bind fun references ↦
    tallies_count_inPlace (hexpression owned references)).mono ?_
  rintro _ _ _ ⟨owned, _, _, _, _, ⟨rfl, rfl⟩, ⟨references, _, _, _, _, ⟨rfl, rfl⟩,
    ⟨_, ⟨_, _, _, _, _, ⟨rfl, rfl⟩, ⟨rfl, rfl, rfl⟩, rfl, rfl⟩, rfl⟩, rfl, rfl⟩, rfl, rfl⟩
  simp

/-- Releasing the hold of the caller on an input is not counted. -/
theorem tallies_release (name : String) :
    Tallies (do let _ ← Tallying.onLedger (resolveUse graph ⟨none, 0⟩ name))
      (do let _ ← resolveUse graph ⟨none, 0⟩ name)
      fun _ references inPlace ↦ references = [] ∧ inPlace = 0 := by
  refine ((Tallies.onLedger (resolveUse graph ⟨none, 0⟩ name)).bind fun _ ↦
    Tallies.pure ()).mono ?_
  rintro _ _ _ ⟨_, _, _, _, _, ⟨rfl, rfl⟩, ⟨rfl, rfl, rfl⟩, rfl, rfl⟩
  exact ⟨rfl, rfl⟩

/-- The items for which something holds, added up one by one. -/
theorem sum_map_toNat (holds : α → Bool) (items : List α) :
    (items.map fun item ↦ (holds item).toNat).sum = items.countP holds := by
  induction items with
  | nil => rfl
  | cons item rest ih =>
    rw [List.map_cons, List.sum_cons, ih, List.countP_cons, Nat.add_comm]
    cases holds item <;> rfl

theorem tallies_tallyBody :
    Tallies (tallyBody ops graph style) (emitBody ops graph style)
      fun body references inPlace ↦
        references = body.references ∧ inPlace = body.statements.countP Statement.owned := by
  have hstatements := Tallies.mapM (fun entry : Node × Nat ↦
    tallies_tallyStatement ops graph style entry.1 entry.2) graph.nodes.zipIdx
  have hreturned :=
    tallies_references graph style graph.returnSite id (fun _ ↦ true) graph.outputs
  have hreleased := Tallies.forM (tallies_release graph) graph.inputs
  refine (hstatements.bind fun statements ↦ hreturned.bind fun returned ↦ hreleased.bind fun _ ↦
    Tallies.pure (⟨statements, returned⟩ : Body)).mono ?_
  rintro _ _ _ ⟨statements, _, _, _, _, ⟨rfl, rfl⟩, ⟨returned, _, _, _, _, ⟨rfl, rfl⟩,
    ⟨_, _, _, _, _, ⟨rfl, rfl⟩, ⟨rfl, rfl, rfl⟩, rfl, rfl⟩, rfl, rfl⟩, rfl, rfl⟩
  simp [Body.references, sum_map_toNat]

/-- The decisions and the statistics that are kept while a body is written are those of the body.
Assumes: a body that is written. -/
theorem tallyBody_eq_ok {ops : List Op} {graph : Graph} {style : ReferenceStyle}
    {ledger final : Ledger} {body : Body}
    (hwritten : emitBody ops graph style ledger = (.ok body, final)) :
    tallyBody ops graph style { ledger } = (.ok body, ⟨final, body.decisions, body.stats⟩) := by
  rcases tallies_tallyBody ops graph style { ledger } with
    ⟨_, _, _, _, hplain, hcounting, rfl, rfl⟩ | ⟨_, _, hplain, _⟩
  · rw [hwritten] at hplain
    cases hplain
    rw [hcounting, Body.stats_eq_plus]
    rfl
  · rw [hwritten] at hplain
    cases hplain

end Agreement

end Handover
