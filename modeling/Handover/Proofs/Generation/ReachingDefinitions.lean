import Handover.Proofs.Generation.Outcome

/-!
# Reaching definitions

Run from the top, the statements of a body bind their targets one after the other, so a variable
holds at a statement what its last binder before it gave it (`Body.lastBinder?`): the last earlier
statement with that target, or else a parameter. The ledger knows nothing of statements. It counts
the positions at which the graph produces an identifier, and charges a use to the last of them at or
below its own. Both are the same (`position_lastBinder?`), and so every reference of a generated
module reads the value that its decision was charged to (`reaching_definitions`), also where
different names of the graph share an identifier.
-/

set_option autoImplicit false
set_option relaxedAutoImplicit false

namespace Handover

/-- What binds an identifier in a module: a parameter of its method, or the statement at an
index. -/
inductive Binder
  | parameter
  | statement (index : Nat)
deriving DecidableEq, Repr

/-- The position at which the ledger counts the value of a binder as produced. -/
def Binder.position : Binder → Int
  | parameter => 0
  | statement index => (index : Int) + 1

namespace Body

variable (body : Body)

/-- The last binder of an identifier before the statement at an index, among the statements and the
parameters of given identifiers. -/
def lastBinder? (idents : List String) (ident : String) : Nat → Option Binder
  | 0 => if ident ∈ idents then some .parameter else none
  | index + 1 =>
    match body.statements[index]? with
    | some statement =>
      if ident ∈ statement.targets then some (.statement index)
      else lastBinder? idents ident index
    | none => lastBinder? idents ident index

/-- The references of the statement at an index, or those of the return after the last statement. -/
def referencesAt (index : Nat) : List Reference :=
  match body.statements[index]? with
  | some statement => statement.references
  | none => body.returned

theorem mem_references_of_mem_referencesAt {body : Body} {index : Nat} {reference : Reference}
    (hreference : reference ∈ body.referencesAt index) : reference ∈ body.references := by
  rw [references, List.mem_append]
  unfold referencesAt at hreference
  cases hstatement : body.statements[index]? with
  | none =>
    rw [hstatement] at hreference
    exact .inr hreference
  | some statement =>
    rw [hstatement] at hreference
    exact .inl (List.mem_flatMap_of_mem (List.mem_of_getElem? hstatement) hreference)

end Body

/-! ### Binders and generations -/

section Binders

variable {graph : Graph} {body : Body}

/-- An identifier is produced one past an index when the statement there binds it. Assumes: the
statements of the nodes of a graph. -/
theorem succ_mem_producedAt_iff_targets (hnodes : body.statements.map Statement.node = graph.nodes)
    {ident : String} {index : Nat} :
    (index : Int) + 1 ∈ graph.producedAt ident ↔
      ∃ statement, body.statements[index]? = some statement ∧ ident ∈ statement.targets := by
  rw [Graph.succ_mem_producedAt_iff, ← hnodes, List.getElem?_map]
  simp only [Option.map_eq_some_iff]
  constructor
  · rintro ⟨_, ⟨statement, hstatement, rfl⟩, hident⟩
    exact ⟨statement, hstatement, hident⟩
  · rintro ⟨statement, hstatement, hident⟩
    exact ⟨statement.node, ⟨statement, hstatement, rfl⟩, hident⟩

/-- The last binder of an identifier before a statement stands where a use by the statement is
charged. Assumes: the statements of the nodes of a graph. -/
theorem position_lastBinder? (hnodes : body.statements.map Statement.node = graph.nodes)
    (ident : String) (index : Nat) :
    (body.lastBinder? (graph.inputs.map sanitize) ident index).map Binder.position =
      graph.origin ⟨ident, index⟩ := by
  induction index with
  | zero =>
    rw [Body.lastBinder?]
    by_cases hinput : ident ∈ graph.inputs.map sanitize
    · rw [if_pos hinput]
      exact (Graph.origin_of_mem
        (Graph.zero_mem_producedAt_iff.mpr (List.mem_map.mp hinput))).symm
    · rw [if_neg hinput, Option.map_none, eq_comm, Graph.origin_eq_none_iff]
      intro place hplace
      rcases Graph.eq_zero_or_pos_of_mem_producedAt hplace with rfl | hpos
      · exact absurd (List.mem_map.mpr (Graph.zero_mem_producedAt_iff.mp hplace)) hinput
      · exact hpos
  | succ index ih =>
    have hproduced : (index : Int) + 1 ∈ graph.producedAt ident ↔
        ∃ statement, body.statements[index]? = some statement ∧ ident ∈ statement.targets :=
      succ_mem_producedAt_iff_targets hnodes
    by_cases hbinds : (index : Int) + 1 ∈ graph.producedAt ident
    · obtain ⟨statement, hstatement, htarget⟩ := hproduced.mp hbinds
      rw [Body.lastBinder?, hstatement, Int.natCast_succ, Graph.origin_of_mem hbinds]
      dsimp only
      rw [if_pos htarget]
      rfl
    · rw [Int.natCast_succ, Graph.origin_succ_of_not_mem hbinds, ← ih, Body.lastBinder?]
      cases hstatement : body.statements[index]? with
      | none => rfl
      | some statement =>
        have htarget : ident ∉ statement.targets := fun htarget ↦
          hbinds (hproduced.mpr ⟨statement, hstatement, htarget⟩)
        dsimp only
        rw [if_neg htarget]

end Binders

/-! ### The references of a written body -/

section Written

variable {ops : List Op} {graph : Graph} {style : ReferenceStyle} {later : List Use} {body : Body}

/-- The value at a place is written for the item there. -/
theorem Sequenced.exists_of_getElem? {α β : Type} {usesOf : α → List Use}
    {related : α → List Use → β → Prop} {items : List α} {values : List β}
    (hsequenced : Sequenced usesOf related later items values) {index : Nat} {value : β}
    (hvalue : values[index]? = some value) :
    ∃ item after, items[index]? = some item ∧ related item after value := by
  induction hsequenced generalizing index with
  | nil => cases hvalue
  | cons hhead _ ih =>
    cases index with
    | zero =>
      obtain rfl := Option.some.inj hvalue
      exact ⟨_, _, rfl, hhead⟩
    | succ index => exact ih hvalue

/-- Each value is written for one of the items. -/
theorem Sequenced.exists_of_mem {α β : Type} {usesOf : α → List Use}
    {related : α → List Use → β → Prop} {items : List α} {values : List β}
    (hsequenced : Sequenced usesOf related later items values) {value : β}
    (hvalue : value ∈ values) : ∃ item ∈ items, ∃ after, related item after value := by
  obtain ⟨index, hindex⟩ := List.mem_iff_getElem?.mp hvalue
  obtain ⟨item, after, hitem, hrelated⟩ := hsequenced.exists_of_getElem? hindex
  exact ⟨item, List.mem_of_getElem? hitem, after, hrelated⟩

theorem Sequenced.map_eq {α β γ : Type} {usesOf : α → List Use}
    {related : α → List Use → β → Prop} {read : α → γ} {made : β → γ}
    (hmade : ∀ item after value, related item after value → made value = read item)
    {items : List α} {values : List β} (hsequenced : Sequenced usesOf related later items values) :
    values.map made = items.map read := by
  induction hsequenced with
  | nil => rfl
  | cons hvalue _ ih => rw [List.map_cons, List.map_cons, hmade _ _ _ hvalue, ih]

/-- The statements of a written body are those of the nodes. -/
theorem WrittenBody.map_node (hwritten : WrittenBody ops graph style later body) :
    body.statements.map Statement.node = graph.nodes := by
  rw [Sequenced.map_eq (fun _ _ _ hstatement ↦ hstatement.node_eq) hwritten.statements]
  exact List.zipIdx_map_fst _ _

/-- The references at an index of a written body are written for reads at that index. -/
theorem WrittenBody.exists_of_mem_referencesAt (hwritten : WrittenBody ops graph style later body)
    {index : Nat} (hindex : index ≤ graph.nodes.length) {reference : Reference}
    (hreference : reference ∈ body.referencesAt index) :
    ∃ name owned after, WrittenReference graph style index name owned after reference := by
  have hreferences : ∃ slots after,
      WrittenReferences graph style index slots after (body.referencesAt index) := by
    unfold Body.referencesAt
    cases hstatement : body.statements[index]? with
    | some statement =>
      obtain ⟨entry, after, hentry, hmade⟩ := hwritten.statements.exists_of_getElem? hstatement
      rw [List.getElem?_zipIdx, Option.map_eq_some_iff] at hentry
      obtain ⟨node, _, rfl⟩ := hentry
      rw [Nat.zero_add] at hmade
      exact ⟨_, _, hmade.references⟩
    | none =>
      have hlength := List.getElem?_eq_none_iff.mp hstatement
      rw [← List.length_map Statement.node, hwritten.map_node] at hlength
      rw [le_antisymm hindex hlength]
      exact ⟨_, _, hwritten.returned⟩
  obtain ⟨slots, after, hsequenced⟩ := hreferences
  obtain ⟨slot, _, rest, hslot⟩ := hsequenced.exists_of_mem hreference
  exact ⟨slot.1, slot.2, rest, hslot⟩

end Written

/-! ### Generated modules -/

/-- How a reference at an index of a body reaches its value, where a ledger charged its decision:
without a decision it names the buffer of a constant, and with one it names the identifier that the
decision was for, whose last binder before the index stands where the decision was charged. -/
def Reference.Reaches (graph : Graph) (body : Body) (ledger : Ledger) (index : Nat)
    (reference : Reference) : Prop :=
  match reference.decision with
  | none => ∃ name ∈ graph.constants, reference.subject = "self." ++ sanitize name
  | some decision =>
    reference.subject = decision.name ∧ decision.position = index ∧
      ∃ binder, body.lastBinder? (graph.inputs.map sanitize) decision.name index = some binder ∧
        ledger.origin decision.use = some binder.position

/-- The references of a body that was written on a ledger reach their values. Assumes: every read of
the graph resolves. -/
theorem WrittenBody.reaches {ops : List Op} {graph : Graph} {style : ReferenceStyle}
    {later : List Use} {body : Body} (hwritten : WrittenBody ops graph style later body)
    (hresolved : graph.firstUnresolved? = none) {ledger : Ledger}
    (horigin : ∀ use, ledger.origin use = graph.origin use) {index : Nat}
    (hindex : index ≤ graph.nodes.length) {reference : Reference}
    (hreference : reference ∈ body.referencesAt index) :
    reference.Reaches graph body ledger index := by
  obtain ⟨name, owned, after, hmade⟩ := hwritten.exists_of_mem_referencesAt hindex hreference
  unfold WrittenReference at hmade
  split_ifs at hmade with hconstant
  · obtain ⟨hsubject, _, hdecision⟩ := constantReference_eq_ok hmade
    rw [Reference.Reaches, hdecision]
    exact ⟨name, List.contains_iff_mem.mp hconstant, hsubject⟩
  · obtain ⟨hsubject, _, hdecision⟩ := variableReference_eq_ok hmade
    have hread : (⟨sanitize name, index⟩ : Use) ∈ graph.reads := by
      have hdecisions := congrArg (List.map Decision.use) hwritten.decisions_eq
      rw [map_use_decisions] at hdecisions
      rw [← hdecisions]
      exact List.mem_map_of_mem (List.mem_filterMap.mpr
        ⟨reference, Body.mem_references_of_mem_referencesAt hreference, hdecision⟩)
    obtain ⟨place, hplace⟩ := exists_origin_of_resolved hresolved
      ((usesOf_buildCalls_perm graph).mem_iff.mpr (List.mem_append_left _ hread))
    have hbinder := position_lastBinder? hwritten.map_node (sanitize name) index
    rw [hplace, Option.map_eq_some_iff] at hbinder
    obtain ⟨binder, hlast, rfl⟩ := hbinder
    rw [Reference.Reaches, hdecision]
    exact ⟨hsubject, rfl, binder, hlast, (horigin _).trans hplace⟩

/-- The body of a generated module has one statement for each node, written on the ledger that the
first walk leaves. Each of its references names a buffer that a line of the module registers, or an
identifier whose last binder before it, a parameter or an earlier statement, stands at the position
of the generation that the decision was charged to. -/
theorem reaching_definitions {setup : Setup} {options : Options} {graph : Graph} {trace : Trace}
    {generated : Generated} (hgenerated : (generate setup options graph trace).1 = .ok generated) :
    ∃ built body final lines, buildLedger graph (.fresh trace.events) = (.ok (), built) ∧
      emitBody setup.ops graph options.style built = (.ok body, final) ∧
      moduleLines graph options.className body = .ok lines ∧
      generated.source = "\n".intercalate lines ++ "\n" ∧
      generated.decisions = body.decisions ∧
      body.statements.map Statement.node = graph.nodes ∧
      (∀ name ∈ graph.constants, ∃ line ∈ lines, bufferLine graph name = .ok line) ∧
      ∀ index ≤ graph.nodes.length, ∀ reference ∈ body.referencesAt index,
        reference.Reaches graph body built index := by
  obtain ⟨failOn, body, _, hmodule⟩ := generate_eq_ok (Prod.ext hgenerated rfl)
  obtain ⟨final, hwritten⟩ := hmodule.written
  obtain ⟨hresolved, _, hbody⟩ := writeBody_eq_ok _ _ _ hwritten
  obtain ⟨⟨⟩, built, hbuilt, hemitted⟩ := Stateful.bind_eq_ok_iff.mp hwritten
  obtain ⟨_, horigin, _⟩ := owes_of_buildLedger hbuilt
  obtain ⟨lines, hlines, hsource⟩ := Result.bind_eq_ok_iff.mp hmodule.source
  refine ⟨built, body, final, lines, hbuilt, hemitted, hlines, (Except.ok.inj hsource).symm,
    hmodule.decisions, hbody.map_node, ?_,
    fun index hindex reference hreference ↦ hbody.reaches hresolved horigin hindex hreference⟩
  intro name hname
  obtain ⟨bufferLines, hbuffers, heq⟩ := Result.bind_eq_ok_iff.mp hlines
  obtain ⟨line, hmem, hline⟩ := Result.exists_result_of_mem hbuffers hname
  refine ⟨line, ?_, hline⟩
  rw [← Except.ok.inj heq]
  simp only [List.mem_append]
  exact .inl (.inl (.inr hmem))

/-- The steps that build a graph in which an input, a node and a constant have names that differ and
share an identifier with the names of others. -/
def collidingSteps : Result Graph := do
  let shape := [Attr.int 2]
  let graph ← Graph.addInput { name := "colliding" } "x:0" shape "float32"
  let graph ← graph.addTensor "w:0" shape "float32"
  let graph ← graph.addTensor "x.0" shape "float32"
  let graph ← graph.addTensor "w.0" shape "float32"
  let graph ← graph.addNode .relu ["x:0"] ["x.0"] {}
  let graph ← graph.addNode .add ["x:0", "w:0"] ["w.0"] {}
  return { graph with constants := ["w:0"], outputs := ["w.0", "x:0"] }

/-- A graph in which different names share an identifier. -/
def colliding : Graph := collidingSteps.toOption.get rfl

/-- Read after the node that takes its identifier, an input is charged to the node. -/
theorem reaching_definitions_colliding :
    ∃ generated, (generate standardSetup { strictness := "none" } colliding {}).1 = .ok generated ∧
      generated.decisions.map (fun decision ↦ (decision.name, colliding.origin decision.use)) =
        [("x_0", some 0), ("x_0", some 1), ("w_0", some 2), ("x_0", some 1)] ∧
      ∃ (built : Ledger) (body : Body), buildLedger colliding (.fresh none) = (.ok (), built) ∧
        generated.decisions = body.decisions ∧
        ∀ index ≤ 2, ∀ reference ∈ body.referencesAt index,
          reference.Reaches colliding body built index := by
  have hcharged : ((generate standardSetup { strictness := "none" } colliding {}).1.toOption.map
      fun generated ↦ generated.decisions.map fun decision ↦
        (decision.name, colliding.origin decision.use)) =
      some [("x_0", some 0), ("x_0", some 1), ("w_0", some 2), ("x_0", some 1)] := by
    decide +kernel
  obtain ⟨generated, hsome, hlist⟩ := Option.map_eq_some_iff.mp hcharged
  have hgenerated := Result.eq_ok_of_toOption_eq_some hsome
  obtain ⟨built, body, _, _, hbuilt, _, _, _, hdecisions, _, _, hreaches⟩ :=
    reaching_definitions hgenerated
  exact ⟨generated, hgenerated, hlist, built, body, hbuilt, hdecisions, hreaches⟩

end Handover
