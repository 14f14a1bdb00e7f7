import Handover.Proofs.PlainErrors
import Handover.Proofs.Program.Uses

/-!
# The second walk

A computation settles some uses when, on a ledger that owes them before others, it resolves exactly
these, in order, and fails with plain errors only (`Settles`). Computations that settle uses compose
(`Settles.bind`, `Settles.mapM`). Writing a reference settles its read (`settles_emitReference`),
and so the second walk of a graph settles its reads and the holds of its inputs, and what it writes
is determined by them (`settles_emitBody`, `WrittenBody`): each reference to a variable carries the
decision for its read before all later uses. In particular the decisions of a body are those of the
reads of its graph, in order (`WrittenBody.decisions_eq`).
-/

set_option autoImplicit false
set_option relaxedAutoImplicit false

namespace Handover

variable {α β : Type}

/-- A computation settles some uses: on a ledger that owes them before others it gives a value that
satisfies a condition on the others and leaves a ledger that owes the others, or it fails with a
plain error. -/
def Settles (origin : Use → Option Int) (computation : Bookkeeping α) (uses : List Use)
    (post : List Use → α → Prop) : Prop :=
  ∀ (ledger : Ledger) (later : List Use), ledger.phase = .emitting →
    (∀ use, ledger.origin use = origin use) → ledger.Owes (uses ++ later) →
    (∃ value final, computation ledger = (.ok value, final) ∧ ledger.SameGenerations final ∧
      final.Owes later ∧ post later value) ∨
    ∃ err final, computation ledger = (.error err, final) ∧ err.IsPlain

/-- Items that are handled one after the other: each value is related to its item and to the uses
after it, which are those of the later items and then the given ones. -/
inductive Sequenced (usesOf : α → List Use) (related : α → List Use → β → Prop) (later : List Use) :
    List α → List β → Prop
  | nil : Sequenced usesOf related later [] []
  | cons {item : α} {items : List α} {value : β} {values : List β}
      (hvalue : related item (items.flatMap usesOf ++ later) value)
      (hrest : Sequenced usesOf related later items values) :
      Sequenced usesOf related later (item :: items) (value :: values)

/-! ### Composition -/

namespace Settles

variable {origin : Use → Option Int} {uses more : List Use} {post : List Use → α → Prop}

theorem mono {computation : Bookkeeping α} (hsettles : Settles origin computation uses post)
    {weaker : List Use → α → Prop}
    (hweaker : ∀ later value, post later value → weaker later value) :
    Settles origin computation uses weaker := by
  intro ledger later hphase horigin howes
  rcases hsettles ledger later hphase horigin howes with
    ⟨value, final, hrun, hsame, hfinal, hpost⟩ | hfailed
  · exact .inl ⟨value, final, hrun, hsame, hfinal, hweaker later value hpost⟩
  · exact .inr hfailed

theorem lift {result : Result α} (hplain : result.Plain) :
    Settles origin (Bookkeeping.lift result) [] fun _ value ↦ result = .ok value := by
  intro ledger later hphase horigin howes
  cases hresult : result with
  | ok value => exact .inl ⟨value, ledger, rfl, Ledger.SameGenerations.refl ledger, howes, rfl⟩
  | error err => exact .inr ⟨err, ledger, rfl, hplain err hresult⟩

theorem pure (value : α) :
    Settles origin (Pure.pure value : Bookkeeping α) [] fun _ other ↦ other = value := by
  intro ledger later hphase horigin howes
  exact .inl ⟨value, ledger, rfl, Ledger.SameGenerations.refl ledger, howes, rfl⟩

/-- Two computations in sequence settle the uses of the first and then those of the second. -/
theorem bind {first : Bookkeeping α} {next : α → Bookkeeping β} {result : α → List Use → β → Prop}
    (hfirst : Settles origin first uses post)
    (hnext : ∀ value, Settles origin (next value) more (result value)) :
    Settles origin (first >>= next) (uses ++ more) fun later final ↦
      ∃ value, post (more ++ later) value ∧ result value later final := by
  intro ledger later hphase horigin howes
  rw [List.append_assoc] at howes
  rw [Stateful.run_bind]
  rcases hfirst ledger (more ++ later) hphase horigin howes with
    ⟨value, reached, hrun, hsame, hreached, hpost⟩ | ⟨err, reached, hrun, hplain⟩
  · rw [hrun]
    rcases hnext value reached later (hsame.phase.trans hphase)
        (fun use ↦ (hsame.origin use).trans (horigin use)) hreached with
      ⟨other, final, hrest, hsameRest, hfinal, hresult⟩ | hfailed
    · exact .inl ⟨other, final, hrest, hsame.trans hsameRest, hfinal, value, hpost, hresult⟩
    · exact .inr hfailed
  · rw [hrun]
    exact .inr ⟨err, reached, rfl, hplain⟩

/-- A computation that settles nothing may follow. -/
theorem bind_nil {first : Bookkeeping α} {next : α → Bookkeeping β}
    {result : α → List Use → β → Prop} (hfirst : Settles origin first uses post)
    (hnext : ∀ value, Settles origin (next value) [] (result value)) :
    Settles origin (first >>= next) uses fun later final ↦
      ∃ value, post later value ∧ result value later final := by
  have hbind := hfirst.bind hnext
  rwa [List.append_nil] at hbind

theorem map {first : Bookkeeping α} (hfirst : Settles origin first uses post) (made : α → β) :
    Settles origin (first >>= fun value ↦ Pure.pure (made value)) uses fun later other ↦
      ∃ value, post later value ∧ other = made value :=
  hfirst.bind_nil fun value ↦ pure (made value)

/-- The result of a call that does not touch the ledger may come first. -/
theorem lift_bind {result : Result α} {next : α → Bookkeeping β} {after : List Use → β → Prop}
    (hplain : result.Plain) (hnext : ∀ value, result = .ok value →
      Settles origin (next value) uses after) :
    Settles origin (Bookkeeping.lift result >>= next) uses after := by
  intro ledger later hphase horigin howes
  rw [Stateful.run_bind]
  cases hresult : result with
  | ok value => exact hnext value hresult ledger later hphase horigin howes
  | error err => exact .inr ⟨err, ledger, rfl, hplain err hresult⟩

/-- The items of a list are settled one after the other. -/
theorem mapM {items : List α} {call : α → Bookkeeping β} {usesOf : α → List Use}
    {related : α → List Use → β → Prop}
    (hcall : ∀ item ∈ items, Settles origin (call item) (usesOf item) (related item)) :
    Settles origin (items.mapM call) (items.flatMap usesOf) fun later values ↦
      Sequenced usesOf related later items values := by
  induction items with
  | nil =>
    refine (pure []).mono ?_
    rintro later _ rfl
    exact .nil
  | cons head rest ih =>
    rw [List.mapM_cons]
    have hhead := hcall head (List.mem_cons_self ..)
    have hrest := ih fun item hitem ↦ hcall item (List.mem_cons_of_mem _ hitem)
    refine (hhead.bind fun value ↦ hrest.map (value :: ·)).mono ?_
    rintro later _ ⟨value, hvalue, values, hvalues, rfl⟩
    exact .cons hvalue hvalues

end Settles

/-! ### References -/

section References

variable {graph : Graph} {style : ReferenceStyle}

/-- What is written for a read before some later uses: a constant is named as a buffer, and a
variable carries the decision for the read. -/
def WrittenReference (graph : Graph) (style : ReferenceStyle) (position : Int) (name : String)
    (owned : Bool) (later : List Use) (reference : Reference) : Prop :=
  if graph.isConstant name then constantReference style name owned = .ok reference
  else variableReference style (Use.decision graph.origin ⟨sanitize name, position⟩ later) owned =
    .ok reference

theorem settles_resolveUse (graph : Graph) (site : Site) (name : String) :
    Settles graph.origin (resolveUse graph site name) [⟨sanitize name, site.position⟩]
      fun later decision ↦
        decision = Use.decision graph.origin ⟨sanitize name, site.position⟩ later := by
  intro ledger later hphase horigin howes
  change ledger.Owes (_ :: later) at howes
  obtain ⟨final, hresolve, hsame, hfinal⟩ := Ledger.Owes.resolve hphase howes
  rw [show ledger.origin = graph.origin from funext horigin] at hresolve
  refine .inl ⟨_, final, ?_, hsame, hfinal, rfl⟩
  simp only [resolveUse, Bookkeeping.call, hresolve]

theorem settles_emitReference (graph : Graph) (style : ReferenceStyle) (site : Site) (name : String)
    (owned : Bool) :
    Settles graph.origin (emitReference graph style site name owned)
      (graph.readsAt site.position [name])
      (WrittenReference graph style site.position name owned) := by
  unfold emitReference WrittenReference
  cases hname : graph.isConstant name with
  | true =>
    rw [Graph.readsAt_constant hname, if_pos rfl]
    simp only [if_true]
    exact Settles.lift (plain_constantReference style name owned)
  | false =>
    rw [Graph.readsAt_variable hname, if_neg Bool.false_ne_true]
    simp only [Bool.false_eq_true, if_false]
    refine ((settles_resolveUse graph site name).bind fun decision ↦
      Settles.lift (plain_variableReference style decision owned)).mono ?_
    rintro later reference ⟨decision, rfl, hreference⟩
    exact hreference

end References

/-! ### Statements and bodies -/

section Bodies

variable (ops : List Op) (graph : Graph) (style : ReferenceStyle)

/-- The slots of a node: the names of its inputs, and whether each slot is owned when the first
input is or is not. -/
def Node.slots (node : Node) (owned : Bool) : List (String × Bool) :=
  node.inputs.zipIdx.map fun entry ↦ (entry.1, owned && entry.2 == 0)

/-- What is written for slots at a position before some later uses. -/
def WrittenReferences (position : Int) (slots : List (String × Bool)) (later : List Use)
    (references : List Reference) : Prop :=
  Sequenced (fun slot ↦ graph.readsAt position [slot.1])
    (fun slot ↦ WrittenReference graph style position slot.1 slot.2) later slots references

/-- What is written for a node at an index before some later uses. -/
structure WrittenStatement (node : Node) (index : Nat) (later : List Use) (statement : Statement) :
    Prop where
  node_eq : statement.node = node
  owned : ownsFirstInput ops graph node = .ok statement.owned
  references : WrittenReferences graph style index (node.slots statement.owned) later
    statement.references
  expression : nodeExpression ops graph node (statement.references.map Reference.text) =
    .ok statement.expression

/-- What is written for a graph before some later uses. -/
structure WrittenBody (later : List Use) (body : Body) : Prop where
  statements : Sequenced (fun entry : Node × Nat ↦ graph.readsAt entry.2 entry.1.inputs)
    (fun entry ↦ WrittenStatement ops graph style entry.1 entry.2)
    (graph.readsAt graph.nodes.length graph.outputs ++ (graph.holds ++ later))
    graph.nodes.zipIdx body.statements
  returned : WrittenReferences graph style graph.nodes.length
    (graph.outputs.map fun name ↦ (name, true)) (graph.holds ++ later) body.returned

variable {graph}

/-- The names of the slots of a node are its inputs. -/
theorem map_fst_slots (node : Node) (owned : Bool) :
    (node.slots owned).map Prod.fst = node.inputs := by
  rw [Node.slots, List.map_map]
  exact List.zipIdx_map_fst _ _

theorem flatMap_slots (position : Int) (node : Node) (owned : Bool) :
    (node.slots owned).flatMap (fun slot ↦ graph.readsAt position [slot.1]) =
      graph.readsAt position node.inputs := by
  conv_rhs => rw [← map_fst_slots node owned, ← Graph.flatMap_readsAt, List.flatMap_map]

variable (graph)

theorem settles_emitReferences (site : Site) (slots : List (String × Bool)) :
    Settles graph.origin (slots.mapM fun slot ↦ emitReference graph style site slot.1 slot.2)
      (slots.flatMap fun slot ↦ graph.readsAt site.position [slot.1])
      (WrittenReferences graph style site.position slots) :=
  Settles.mapM fun slot _ ↦ settles_emitReference graph style site slot.1 slot.2

/-- Writing the statement of a node settles its reads. -/
theorem settles_emitStatement (node : Node) (index : Nat) :
    Settles graph.origin (emitStatement ops graph style node index)
      (graph.readsAt index node.inputs) (WrittenStatement ops graph style node index) := by
  refine Settles.lift_bind (plain_ownsFirstInput ops graph node) fun owned howned ↦ ?_
  have hreferences := settles_emitReferences graph style ⟨some node.id, index⟩ (node.slots owned)
  rw [flatMap_slots, Node.slots, List.mapM_map] at hreferences
  refine (hreferences.bind_nil fun references ↦
    (Settles.lift (plain_nodeExpression ops graph (references.map Reference.text) node)).map
      fun expression ↦ (⟨node, owned, references, expression⟩ : Statement)).mono ?_
  rintro later _ ⟨references, hwritten, expression, hexpression, rfl⟩
  exact ⟨rfl, howned, hwritten, hexpression⟩

/-- Releasing the hold of the caller on some inputs settles these holds. -/
theorem settles_releases (names : List String) :
    Settles graph.origin
      (names.forM fun name ↦ do let _ ← resolveUse graph ⟨none, 0⟩ name)
      (names.map fun name ↦ ⟨sanitize name, 0⟩) fun _ _ ↦ True := by
  induction names with
  | nil => exact (Settles.pure ()).mono fun _ _ _ ↦ trivial
  | cons name rest ih =>
    refine (((settles_resolveUse graph ⟨none, 0⟩ name).bind fun _ ↦ Settles.pure _).bind fun _ ↦
      ih).mono fun _ _ _ ↦ trivial

/-- The second walk of a graph settles its reads and the holds of its inputs. -/
theorem settles_emitBody :
    Settles graph.origin (emitBody ops graph style) (graph.reads ++ graph.holds)
      (WrittenBody ops graph style) := by
  have hstatements := Settles.mapM fun (entry : Node × Nat) (_ : entry ∈ graph.nodes.zipIdx) ↦
    settles_emitStatement ops graph style entry.1 entry.2
  have hreturned := settles_emitReferences graph style graph.returnSite
    (graph.outputs.map fun name ↦ (name, true))
  rw [List.flatMap_map, Graph.flatMap_readsAt, List.mapM_map] at hreturned
  rw [Graph.reads, List.append_assoc]
  refine (hstatements.bind fun statements ↦ hreturned.bind fun returned ↦
    (settles_releases graph graph.inputs).map fun _ ↦ (⟨statements, returned⟩ : Body)).mono ?_
  rintro later _ ⟨statements, hwritten, returned, hreferences, _, _, rfl⟩
  rw [List.append_assoc] at hwritten
  exact ⟨hwritten, hreferences⟩

end Bodies

/-! ### Decisions -/

section Decisions

variable {origin : Use → Option Int} {graph : Graph} {style : ReferenceStyle} {later : List Use}

theorem Sequenced.decisions_eq {usesOf : α → List Use} {related : α → List Use → β → Prop}
    {made : β → List Decision}
    (hmade : ∀ item later value, related item later value →
      made value = Use.decisions origin later (usesOf item))
    {items : List α} {values : List β} (hsequenced : Sequenced usesOf related later items values) :
    values.flatMap made = Use.decisions origin later (items.flatMap usesOf) := by
  induction hsequenced with
  | nil => rfl
  | cons hvalue _ ih =>
    rw [List.flatMap_cons, List.flatMap_cons, decisions_append, hmade _ _ _ hvalue, ih]

theorem constantReference_eq_ok {name : String} {owned : Bool} {reference : Reference}
    (hreference : constantReference style name owned = .ok reference) :
    reference.subject = "self." ++ sanitize name ∧ reference.owned = owned ∧
      reference.decision = none := by
  unfold constantReference at hreference
  cases owned with
  | false =>
    obtain rfl := Except.ok.inj hreference
    exact ⟨rfl, rfl, rfl⟩
  | true =>
    obtain ⟨text, _, htext⟩ := Result.bind_eq_ok_iff.mp hreference
    obtain rfl := Except.ok.inj htext
    exact ⟨rfl, rfl, rfl⟩

theorem variableReference_eq_ok {decision : Decision} {owned : Bool} {reference : Reference}
    (hreference : variableReference style decision owned = .ok reference) :
    reference.subject = decision.name ∧ reference.owned = owned ∧
      reference.decision = some decision := by
  unfold variableReference at hreference
  cases owned with
  | false =>
    obtain rfl := Except.ok.inj hreference
    exact ⟨rfl, rfl, rfl⟩
  | true =>
    obtain ⟨text, _, htext⟩ := Result.bind_eq_ok_iff.mp hreference
    obtain rfl := Except.ok.inj htext
    exact ⟨rfl, rfl, rfl⟩

theorem WrittenReference.decisions_eq {position : Int} {name : String} {owned : Bool}
    {reference : Reference}
    (hwritten : WrittenReference graph style position name owned later reference) :
    reference.decision.toList =
      Use.decisions graph.origin later (graph.readsAt position [name]) := by
  unfold WrittenReference at hwritten
  cases hname : graph.isConstant name with
  | true =>
    rw [hname, if_pos rfl] at hwritten
    rw [(constantReference_eq_ok hwritten).2.2, Graph.readsAt_constant hname]
    rfl
  | false =>
    rw [hname, if_neg Bool.false_ne_true] at hwritten
    rw [(variableReference_eq_ok hwritten).2.2, Graph.readsAt_variable hname]
    rfl

theorem WrittenReferences.decisions_eq {position : Int} {slots : List (String × Bool)}
    {references : List Reference}
    (hwritten : WrittenReferences graph style position slots later references) :
    references.filterMap Reference.decision = Use.decisions graph.origin later
      (slots.flatMap fun slot ↦ graph.readsAt position [slot.1]) := by
  rw [List.filterMap_eq_flatMap_toList]
  exact Sequenced.decisions_eq (fun _ _ _ hreference ↦ hreference.decisions_eq) hwritten

/-- The decisions of a body are those of the reads of its graph, in order, before the holds of its
inputs. -/
theorem WrittenBody.decisions_eq {ops : List Op} {body : Body}
    (hwritten : WrittenBody ops graph style later body) :
    body.decisions = Use.decisions graph.origin (graph.holds ++ later) graph.reads := by
  have hstatements : (body.statements.flatMap fun statement ↦
      statement.references.filterMap Reference.decision) =
      Use.decisions graph.origin (graph.readsAt graph.nodes.length graph.outputs ++
        (graph.holds ++ later))
        (graph.nodes.zipIdx.flatMap fun entry ↦ graph.readsAt entry.2 entry.1.inputs) := by
    refine Sequenced.decisions_eq (fun entry later statement hstatement ↦ ?_) hwritten.statements
    rw [hstatement.references.decisions_eq, flatMap_slots]
  have hreturned := hwritten.returned.decisions_eq
  rw [List.flatMap_map, Graph.flatMap_readsAt] at hreturned
  rw [Body.decisions, Body.references, List.filterMap_append, List.filterMap_flatMap, hstatements,
    hreturned, Graph.reads, decisions_append]

end Decisions

end Handover
