import Handover.Proofs.Check.Accepted
import Handover.Proofs.Ownership.Denotation
import Handover.Proofs.Ownership.Separation
import Handover.Proofs.Program.SecondWalk

/-!
# The machine follows the pure evaluation

Before the node at an index the machine is in step with the pure evaluation for the uses that are
left (`Simulates`): parameters and buffers hold what they were given, and a variable that one of
these uses reads before it is bound again holds its value. Fetching a slot keeps the machine in step
for the later uses (`Simulates.fetch`): a slot that hands its value over is the last use of that
value, so what it consumes is read by none of them. Binding the targets of a node starts the next
generation of its identifiers (`Simulates.execute`), and so the statements of an accepted graph
compute its valuation (`Simulates.foldlM_execute`).
-/

set_option autoImplicit false
set_option relaxedAutoImplicit false

namespace Handover

universe u

variable {V : Type u}

/-! ### Identifiers -/

section Identifiers

theorem separator_not_mem_sanitize (name : String) : '.' ∉ (sanitize name).toList := by
  rw [toList_sanitize, List.mem_map]
  rintro ⟨c, _, hc⟩
  unfold separatorToUnderscore at hc
  split_ifs at hc with hseparator
  · cases hc
  · subst hc
    exact hseparator rfl

/-- No identifier form names a buffer of the module. -/
theorem sanitize_ne_buffer (name other : String) : sanitize name ≠ "self." ++ sanitize other := by
  intro heq
  refine separator_not_mem_sanitize name ?_
  rw [heq, String.toList_append]
  exact List.mem_append_left _ (by decide)

end Identifiers

/-! ### Generations of an accepted graph -/

section Generations

variable {graph : Graph} (haccepted : graph.Accepted) {name : String}
  (hname : graph.tensors.contains name = true)

include haccepted hname

/-- A registered name is bound by a node when its identifier form is. -/
theorem Graph.Accepted.mem_outputs {node : Node} (hnode : node ∈ graph.nodes)
    (hform : sanitize name ∈ node.outputs.map sanitize) : name ∈ node.outputs := by
  obtain ⟨output, houtput, hsame⟩ := List.mem_map.mp hform
  have hregistered := haccepted.nodes node hnode output (.inr houtput)
  rwa [haccepted.forms name output hname hregistered hsame.symm]

/-- The first generation of a registered name is that of an input. -/
theorem Graph.Accepted.mem_inputs (hzero : 0 ∈ graph.producedAt (sanitize name)) :
    name ∈ graph.inputs := by
  obtain ⟨input, hinput, hform⟩ := Graph.zero_mem_producedAt_iff.mp hzero
  rwa [haccepted.forms name input hname (haccepted.roles input (.inl hinput)) hform.symm]

/-- Every read of an input resolves to the input. -/
theorem Graph.Accepted.origin_input (hinput : name ∈ graph.inputs) (index : Nat) :
    graph.origin ⟨sanitize name, index⟩ = some 0 := by
  refine Graph.origin_eq_some_iff.mpr
    ⟨⟨Graph.zero_mem_producedAt_iff.mpr ⟨name, hinput, rfl⟩, Int.natCast_nonneg index⟩, ?_⟩
  rintro place ⟨hplace, _⟩
  rcases Graph.mem_producedAt_iff.mp hplace with ⟨hzero, _⟩ | ⟨_, node, hnode, hform, _⟩
  · exact hzero.le
  · have hmem := List.mem_of_getElem? hnode
    exact absurd hinput (haccepted.external node hmem name
      (haccepted.mem_outputs hname hmem hform)).1

/-- A node that does not bind a name leaves its current generation as it is. -/
theorem Graph.Accepted.origin_succ {index : Nat} {node : Node}
    (hnode : graph.nodes[index]? = some node) (habsent : name ∉ node.outputs) :
    graph.origin ⟨sanitize name, (index : Int) + 1⟩ = graph.origin ⟨sanitize name, index⟩ := by
  refine Graph.origin_succ_of_not_mem fun hproduced ↦ ?_
  obtain ⟨binder, hbinder, hform⟩ := Graph.succ_mem_producedAt_iff.mp hproduced
  obtain rfl := Option.some.inj (hnode.symm.trans hbinder)
  exact habsent (haccepted.mem_outputs hname (List.mem_of_getElem? hnode) hform)

end Generations

/-! ### The invariant -/

/-- Whether a name stands for the value that its identifier holds as a variable. -/
def Mirrors (valuation : Valuation V) (machine : Machine V) (name : String) : Prop :=
  ∃ value, valuation name = some value ∧ machine.Holds (sanitize name) value false

/-- The machine is in step with a valuation before a position, for some uses that are left. -/
structure Simulates (graph : Graph) (arguments constants : String → V) (position : Int)
    (uses : List Use) (valuation : Valuation V) (machine : Machine V) : Prop where
  separate : machine.Separate
  resolved : ∀ use ∈ uses, ∃ place, graph.origin use = some place
  parameters : ∀ name ∈ graph.inputs, machine.Holds (sanitize name) (arguments name) true
  buffers : ∀ name ∈ graph.constants, machine.Holds ("self." ++ sanitize name) (constants name) true
  inputs : ∀ name ∈ graph.inputs, graph.isConstant name = false →
    valuation name = some (arguments name)
  constants : ∀ name ∈ graph.constants, valuation name = some (constants name)
  locals : ∀ name, graph.tensors.contains name = true → graph.isConstant name = false →
    name ∉ graph.inputs →
    (∃ use ∈ uses, Use.Shares graph.origin use ⟨sanitize name, position⟩) →
    Mirrors valuation machine name

section Slots

variable {graph : Graph} {arguments constants : String → V} {style : ReferenceStyle} {index : Nat}
  {later : List Use} {valuation : Valuation V} {machine next : Machine V}

theorem Mirrors.of_preserves {kept : String → Prop} {name : String}
    (hmirrors : Mirrors valuation machine name) (hpreserves : machine.Preserves kept next)
    (hkept : kept (sanitize name)) : Mirrors valuation next name := by
  obtain ⟨value, hvalue, hholds⟩ := hmirrors
  exact ⟨value, hvalue, hpreserves.holds _ hkept value false hholds⟩

/-- A machine that preserves what the later uses need stays in step for them. -/
theorem Simulates.of_preserves {position : Int} {uses : List Use} {kept : String → Prop}
    (hsim : Simulates graph arguments constants position uses valuation machine)
    (hpreserves : machine.Preserves kept next) (hlater : later ⊆ uses)
    (hparameters : ∀ name ∈ graph.inputs, kept (sanitize name))
    (hbuffers : ∀ name ∈ graph.constants, kept ("self." ++ sanitize name))
    (hlocals : ∀ name, graph.tensors.contains name = true → name ∉ graph.inputs →
      (∃ use ∈ later, Use.Shares graph.origin use ⟨sanitize name, position⟩) →
      kept (sanitize name)) :
    Simulates graph arguments constants position later valuation next where
  separate := hpreserves.separate
  resolved use huse := hsim.resolved use (hlater huse)
  parameters name hname :=
    hpreserves.holds _ (hparameters name hname) _ _ (hsim.parameters name hname)
  buffers name hname := hpreserves.holds _ (hbuffers name hname) _ _ (hsim.buffers name hname)
  inputs := hsim.inputs
  constants := hsim.constants
  locals name hname hconstant hinput hread := by
    refine Mirrors.of_preserves ?_ hpreserves (hlocals name hname hinput hread)
    obtain ⟨use, huse, hshares⟩ := hread
    exact hsim.locals name hname hconstant hinput ⟨use, hlater huse, hshares⟩

/-- A slot that does not hand its value over works on it, and the machine stays in step for the
later uses. -/
theorem Simulates.fetch_kept {uses : List Use} {reference : Reference} {value : V} {foreign : Bool}
    (hsim : Simulates graph arguments constants index uses valuation machine)
    (hlater : later ⊆ uses)
    (hholds : machine.Holds reference.subject value foreign) (hkept : reference.isMove = false) :
    ∃ region next, machine.fetch reference = .ok ((region, value), next) ∧
      Simulates graph arguments constants index later valuation next ∧
      (reference.owned = true → next.Free region) ∧
      ∀ region, machine.Free region → next.Free region := by
  obtain ⟨region, next, hfetch, hpreserves, hfree⟩ :=
    Machine.fetch_of_holds hsim.separate hholds (by simp [hkept])
  have hall : machine.Preserves (fun _ ↦ True) next :=
    hpreserves.mono fun _ _ _ hmove ↦ by simp [hkept] at hmove
  refine ⟨region, next, hfetch, ?_, hfree, hpreserves.free⟩
  exact hsim.of_preserves hall hlater (fun _ _ ↦ trivial) (fun _ _ ↦ trivial) fun _ _ _ _ ↦ trivial

/-- A slot of a variable that a node binds works on its value, and the machine stays in step for the
later uses, since a value that is handed over is read by none of them. -/
theorem Simulates.fetch_bound (haccepted : graph.Accepted) {name : String}
    (hname : graph.tensors.contains name = true) (hinput : name ∉ graph.inputs) {uses : List Use}
    {reference : Reference} {value : V}
    (hsim : Simulates graph arguments constants index uses valuation machine)
    (hlater : later ⊆ uses)
    (hsubject : reference.subject = sanitize name)
    (hholds : machine.Holds reference.subject value false)
    (hlast : reference.isMove = true →
      ¬ ∃ other ∈ later, Use.Shares graph.origin other ⟨sanitize name, index⟩) :
    ∃ region next, machine.fetch reference = .ok ((region, value), next) ∧
      Simulates graph arguments constants index later valuation next ∧
      (reference.owned = true → next.Free region) ∧
      ∀ region, machine.Free region → next.Free region := by
  obtain ⟨region, next, hfetch, hpreserves, hfree⟩ :=
    Machine.fetch_of_holds hsim.separate hholds fun _ ↦ rfl
  rw [hsubject] at hpreserves
  refine ⟨region, next, hfetch, hsim.of_preserves hpreserves hlater ?_ ?_ ?_, hfree,
    hpreserves.free⟩
  · intro input hmem _ _ hsame
    have heq := haccepted.forms input name (haccepted.roles input (.inl hmem)) hname hsame
    exact hinput (heq ▸ hmem)
  · intro constant _ _ _ hsame
    exact sanitize_ne_buffer name constant hsame.symm
  · -- The name itself is read later only when its value was not handed over.
    intro other hother _ hread _ hmoved hsame
    obtain rfl := haccepted.forms other name hother hname hsame
    exact hlast hmoved hread

/-- A slot works on the value that its name stands for, and the machine stays in step for the later
uses. Assumes: the caller still holds the inputs after the slot. -/
theorem Simulates.fetch (haccepted : graph.Accepted) {name : String}
    (hname : graph.tensors.contains name = true) {owned : Bool} {reference : Reference}
    (hsim : Simulates graph arguments constants index (graph.readsAt index [name] ++ later)
      valuation machine)
    (hheld : graph.holds ⊆ later)
    (hwritten : WrittenReference graph style index name owned later reference) :
    ∃ value region next, machine.fetch reference = .ok ((region, value), next) ∧
      Simulates graph arguments constants index later valuation next ∧
      (owned = true → next.Free region) ∧ (∀ region, machine.Free region → next.Free region) ∧
      valuation name = some value := by
  have hlater : later ⊆ graph.readsAt index [name] ++ later := List.subset_append_right _ _
  unfold WrittenReference at hwritten
  by_cases hconstant : graph.isConstant name = true
  · rw [if_pos hconstant] at hwritten
    obtain ⟨hsubject, rfl, hdecision⟩ := constantReference_eq_ok hwritten
    have hmem : name ∈ graph.constants := List.contains_iff_mem.mp hconstant
    have hholds := hsim.buffers name hmem
    rw [← hsubject] at hholds
    obtain ⟨region, next, hfetch, hnext, hfree, hkeeps⟩ :=
      hsim.fetch_kept hlater hholds (by simp [Reference.isMove, hdecision])
    exact ⟨_, region, next, hfetch, hnext, hfree, hkeeps, hsim.constants name hmem⟩
  · rw [if_neg hconstant] at hwritten
    rw [Bool.not_eq_true] at hconstant
    obtain ⟨hsubject, rfl, hdecision⟩ := variableReference_eq_ok hwritten
    change reference.subject = sanitize name at hsubject
    have hmove : reference.isMove = true ↔
        ¬ ∃ other ∈ later, Use.Shares graph.origin other ⟨sanitize name, index⟩ := by
      rw [← isMove_decision_iff]
      simp [Reference.isMove, hdecision]
    by_cases hinput : name ∈ graph.inputs
    · -- The hold of the caller is a later use of the input.
      have hkept : reference.isMove = false := by
        rw [← Bool.not_eq_true, hmove, not_not]
        obtain ⟨hold, hhold, hshares⟩ := (Graph.exists_hold_shares_iff
          (haccepted.origin_input hname hinput index)).mpr rfl
        exact ⟨hold, hheld hhold, hshares⟩
      have hholds := hsim.parameters name hinput
      rw [← hsubject] at hholds
      obtain ⟨region, next, hfetch, hnext, hfree, hkeeps⟩ := hsim.fetch_kept hlater hholds hkept
      exact ⟨_, region, next, hfetch, hnext, hfree, hkeeps, hsim.inputs name hinput hconstant⟩
    · have hread : (⟨sanitize name, index⟩ : Use) ∈ graph.readsAt index [name] ++ later := by
        rw [Graph.readsAt_variable hconstant]
        exact List.mem_cons_self ..
      obtain ⟨value, hvalue, hholds⟩ :=
        hsim.locals name hname hconstant hinput ⟨_, hread, rfl, rfl⟩
      rw [← hsubject] at hholds
      obtain ⟨region, next, hfetch, hnext, hfree, hkeeps⟩ :=
        hsim.fetch_bound haccepted hname hinput hlater hsubject hholds hmove.mp
      exact ⟨value, region, next, hfetch, hnext, hfree, hkeeps, hvalue⟩

/-- The slots of a statement work on the values that their names stand for. -/
theorem Simulates.fetchAll (haccepted : graph.Accepted) {slots : List (String × Bool)}
    (hnames : ∀ slot ∈ slots, graph.tensors.contains slot.1 = true) {references : List Reference}
    (hsim : Simulates graph arguments constants index
      (slots.flatMap (fun slot ↦ graph.readsAt index [slot.1]) ++ later) valuation machine)
    (hheld : graph.holds ⊆ later)
    (hwritten : WrittenReferences graph style index slots later references) :
    ∃ operands next, machine.fetchAll references = .ok (operands, next) ∧
      List.Forall₂ (fun slot operand ↦ valuation slot.1 = some operand.2 ∧
        (slot.2 = true → next.Free operand.1)) slots operands ∧
      Simulates graph arguments constants index later valuation next ∧
      ∀ region, machine.Free region → next.Free region := by
  unfold WrittenReferences at hwritten
  induction hwritten generalizing machine with
  | nil => exact ⟨[], machine, rfl, .nil, hsim, fun _ hfree ↦ hfree⟩
  | @cons slot slots reference references hreference _ ih =>
    rw [List.flatMap_cons, List.append_assoc] at hsim
    have hheldRest : graph.holds ⊆
        slots.flatMap (fun slot ↦ graph.readsAt index [slot.1]) ++ later :=
      List.subset_append_of_subset_right _ hheld
    obtain ⟨value, region, fetched, hfetch, hsimRest, hfree, hkeeps, hvalue⟩ :=
      hsim.fetch haccepted (hnames slot (List.mem_cons_self ..)) hheldRest hreference
    obtain ⟨operands, next, hrest, hoperands, hfinal, hkeepsRest⟩ :=
      ih (fun other hother ↦ hnames other (List.mem_cons_of_mem _ hother)) hsimRest
    refine ⟨(region, value) :: operands, next, ?_, .cons ⟨hvalue, ?_⟩ hoperands, hfinal, ?_⟩
    · rw [Machine.fetchAll, hfetch]
      show (fetched.fetchAll references >>= _) = _
      rw [hrest]
      rfl
    · exact fun howned ↦ hkeepsRest region (hfree howned)
    · exact fun region hregion ↦ hkeepsRest region (hkeeps region hregion)

end Slots

/-! ### Targets -/

section Targets

/-- Binding the identifiers of some names to results, and the names to the values: the other
identifiers keep what they hold, and each name that is bound stands for what its identifier holds.
Assumes: results in free regions of which no two overlap, and for the last part a name that shares
its identifier with none of those that are bound. -/
theorem bind_results {names : List String} {regions : List Region} {results : List V}
    {machine : Machine V} (hseparate : machine.Separate)
    (hsettled : machine.Settled regions results) (hlength : names.length = results.length) :
    let bound := ((names.map sanitize).zip regions).foldl
      (fun machine entry ↦ machine.bind entry.1 entry.2 false) machine
    bound.Separate ∧
    (∀ ident, ident ∉ names.map sanitize → ∀ value foreign, machine.Holds ident value foreign →
      bound.Holds ident value foreign) ∧
    ∀ (valuation : Valuation V) name,
      (∀ other ∈ names, sanitize name = sanitize other → name = other) →
      name ∈ names ∨ Mirrors valuation machine name →
      Mirrors (valuation.bind names results) bound name := by
  induction names generalizing regions results machine with
  | nil =>
    exact ⟨hseparate, fun _ _ _ _ hholds ↦ hholds, fun _ _ _ h ↦ h.resolve_left List.not_mem_nil⟩
  | cons first names ih =>
    obtain ⟨hfilled, hapart⟩ := hsettled
    cases hfilled with
    | nil => cases hlength
    | @cons region result regions results hhead hfilled =>
      obtain ⟨hnone, hapart⟩ := List.pairwise_cons.mp hapart
      have hrest : (machine.bind (sanitize first) region false).Settled regions results := by
        refine ⟨List.Forall₂.imp ?_ ((List.forall₂_and_left ..).mpr ⟨hnone, hfilled⟩), hapart⟩
        rintro other value ⟨hother, hfree, hcontents⟩
        exact ⟨hfree.bind hother (sanitize first) false, hcontents⟩
      obtain ⟨hbound, hholds, hmirrors⟩ := ih (hseparate.bind hhead.1 (sanitize first) false) hrest
        (Nat.succ.inj hlength)
      refine ⟨hbound, ?_, ?_⟩
      · intro ident habsent value foreign hident
        rw [List.map_cons, List.mem_cons, not_or] at habsent
        exact hholds ident habsent.2 value foreign (hident.bind habsent.1 region false)
      · intro valuation name hforms hname
        refine hmirrors (Function.update valuation first (some result)) name
          (fun other hother ↦ hforms other (List.mem_cons_of_mem _ hother)) ?_
        by_cases hfirst : name = first
        · subst hfirst
          exact .inr ⟨result, Function.update_self .., Machine.holds_bind_self hhead.2 ..⟩
        · refine hname.imp (fun hmem ↦ (List.mem_cons.mp hmem).resolve_left hfirst) ?_
          rintro ⟨value, hvalue, hident⟩
          refine ⟨value, ?_, hident.bind (fun hsame ↦ hfirst ?_) region false⟩
          · rw [Function.update_of_ne hfirst, hvalue]
          · exact hforms first (List.mem_cons_self ..) hsame

end Targets

/-! ### Statements -/

section Statements

variable {graph : Graph} {arguments constants : String → V} {style : ReferenceStyle} {index : Nat}
  {later : List Use} {valuation : Valuation V} {machine : Machine V} {ops : List Op}

/-- A node that owns its first input without being a view has one output. -/
theorem length_outputs_of_ownsFirstInput {node : Node}
    (howns : ownsFirstInput ops graph node = .ok true) (hview : node.op.isView = false) :
    node.outputs.length = 1 := by
  obtain ⟨_, _, hrest⟩ := Result.bind_eq_ok_iff.mp howns
  rw [hview, if_neg Bool.false_ne_true] at hrest
  split_ifs at hrest
  · cases hrest
  · split at hrest
    · rename_i houtputs
      rw [houtputs, List.length_singleton]
    · cases hrest

/-- The first operand of a node that owns it is in a free region. -/
theorem free_head_of_slots {node : Node} {operands : List (Region × V)}
    (hoperands : List.Forall₂ (fun slot operand ↦ valuation slot.1 = some operand.2 ∧
      (slot.2 = true → machine.Free operand.1)) (node.slots true) operands) :
    ∀ operand ∈ operands.head?, machine.Free operand.1 := by
  intro operand hoperand
  rw [Node.slots] at hoperands
  cases hinputs : node.inputs with
  | nil =>
    rw [hinputs] at hoperands
    cases hoperands
    cases hoperand
  | cons first rest =>
    rw [hinputs, List.zipIdx_cons, List.map_cons] at hoperands
    cases hoperands with
    | cons hhead _ =>
      obtain rfl := Option.some.inj hoperand
      exact hhead.2 rfl

/-- Binding the results of a node takes the machine to the position after it. -/
theorem Simulates.bind (haccepted : graph.Accepted) {node : Node}
    (hnode : graph.nodes[index]? = some node)
    (hsim : Simulates graph arguments constants index later valuation machine)
    {regions : List Region} {results : List V} (hsettled : machine.Settled regions results)
    (hlength : node.outputs.length = results.length) :
    Simulates graph arguments constants (index + 1 : Nat) later
      (valuation.bind node.outputs results)
      (((node.outputs.map sanitize).zip regions).foldl
        (fun machine entry ↦ machine.bind entry.1 entry.2 false) machine) := by
  have hmem : node ∈ graph.nodes := List.mem_of_getElem? hnode
  obtain ⟨hbound, hholds, hmirrors⟩ := bind_results hsim.separate hsettled hlength
  refine ⟨hbound, hsim.resolved, ?_, ?_, ?_, ?_, ?_⟩
  · intro name hname
    refine hholds _ (fun hform ↦ ?_) _ _ (hsim.parameters name hname)
    have houtput := haccepted.mem_outputs (haccepted.roles name (.inl hname)) hmem hform
    exact (haccepted.external _ hmem name houtput).1 hname
  · intro name hname
    refine hholds _ (fun hform ↦ ?_) _ _ (hsim.buffers name hname)
    obtain ⟨output, _, hsame⟩ := List.mem_map.mp hform
    exact sanitize_ne_buffer output name hsame
  · intro name hname hconstant
    rw [Valuation.bind_of_not_mem fun houtput ↦ (haccepted.external _ hmem name houtput).1 hname]
    exact hsim.inputs name hname hconstant
  · intro name hname
    rw [Valuation.bind_of_not_mem fun houtput ↦ (haccepted.external _ hmem name houtput).2 hname]
    exact hsim.constants name hname
  · rintro name hname hconstant hinput ⟨use, huse, hshares⟩
    refine hmirrors valuation name (fun output houtput ↦
      haccepted.forms name output hname (haccepted.nodes _ hmem output (.inr houtput))) ?_
    by_cases houtput : name ∈ node.outputs
    · exact .inl houtput
    · -- The name keeps its generation, and what it held before the node it still holds.
      refine .inr (hsim.locals name hname hconstant hinput ⟨use, huse, hshares.1, ?_⟩)
      rw [hshares.2, Int.natCast_add, Int.natCast_one, haccepted.origin_succ hname hnode houtput]

/-- A statement that is written for a node computes the valuation after the node. -/
theorem Simulates.execute (haccepted : graph.Accepted) {node : Node}
    (hnode : graph.nodes[index]? = some node) {statement : Statement}
    (hsim : Simulates graph arguments constants index (graph.readsAt index node.inputs ++ later)
      valuation machine)
    (hheld : graph.holds ⊆ later)
    (hwritten : WrittenStatement ops graph style node index later statement)
    (meaning : Interpretation V) :
    ∃ bound next, machine.execute meaning statement = .ok next ∧
      valuation.after meaning node = some bound ∧
      Simulates graph arguments constants (index + 1 : Nat) later bound next := by
  obtain ⟨rfl, howned, hreferences, _⟩ := hwritten
  have hslots := map_fst_slots statement.node statement.owned
  have hnames : ∀ slot ∈ statement.node.slots statement.owned,
      graph.tensors.contains slot.1 = true := by
    intro slot hslot
    refine haccepted.nodes _ (List.mem_of_getElem? hnode) slot.1 (.inl ?_)
    rw [← hslots]
    exact List.mem_map_of_mem hslot
  rw [← flatMap_slots index statement.node statement.owned] at hsim
  obtain ⟨operands, fetched, hfetch, hoperands, hfetched, _⟩ :=
    hsim.fetchAll haccepted hnames hheld hreferences
  have hvalues : statement.node.inputs.mapM valuation = some (operands.map Prod.snd) := by
    refine Valuation.mapM_eq_some_of_forall₂ ?_
    rw [← hslots, List.forall₂_map_left_iff, List.forall₂_map_right_iff]
    exact List.Forall₂.imp (fun _ _ h ↦ h.1) hoperands
  obtain ⟨results, hresults⟩ : ∃ results, results = List.ofFn (meaning statement.node.op
      statement.node.attrs (operands.map Prod.snd) statement.node.outputs.length) := ⟨_, rfl⟩
  have hlength : statement.node.outputs.length = results.length := by
    rw [hresults, List.length_ofFn]
  have hfree : statement.owned = true → ∀ operand ∈ operands.head?, fetched.Free operand.1 := by
    intro howns
    rw [howns] at hoperands
    exact free_head_of_slots hoperands
  have hsingle : statement.owned = true → statement.node.op.isView = false →
      results.length ≤ 1 := by
    intro howns hview
    rw [howns] at howned
    rw [← hlength, length_outputs_of_ownsFirstInput howned hview]
  have hsettle : fetched.Preserves (fun _ ↦ True) _ ∧ _ :=
    Machine.settle_of_free hfetched.separate hfree hsingle
  have hsettled := hfetched.of_preserves hsettle.1 (List.Subset.refl later) (fun _ _ ↦ trivial)
    (fun _ _ ↦ trivial) fun _ _ _ _ ↦ trivial
  refine ⟨valuation.bind statement.node.outputs results, _, ?_, ?_,
    hsettled.bind haccepted hnode hsettle.2 hlength⟩
  · show (machine.fetchAll statement.references >>= _) = _
    rw [hfetch, hresults]
    rfl
  · rw [Valuation.after, hvalues, hresults]
    rfl

/-- The statements of an accepted graph compute the valuation after its nodes. -/
theorem Simulates.foldlM_execute (haccepted : graph.Accepted) (meaning : Interpretation V)
    (rest : List Node) {before : List Node} (hsplit : graph.nodes = before ++ rest)
    {statements : List Statement}
    (hsim : Simulates graph arguments constants before.length
      ((rest.zipIdx before.length).flatMap (fun entry ↦ graph.readsAt entry.2 entry.1.inputs) ++
        later) valuation machine)
    (hheld : graph.holds ⊆ later)
    (hwritten : Sequenced (fun entry : Node × Nat ↦ graph.readsAt entry.2 entry.1.inputs)
      (fun entry ↦ WrittenStatement ops graph style entry.1 entry.2) later
      (rest.zipIdx before.length) statements) :
    ∃ reached final, statements.foldlM (Machine.execute meaning) machine = .ok final ∧
      rest.foldlM (Valuation.after meaning) valuation = some reached ∧
      Simulates graph arguments constants graph.nodes.length later reached final := by
  induction rest generalizing before statements valuation machine with
  | nil =>
    cases hwritten
    rw [List.append_nil] at hsplit
    rw [hsplit]
    exact ⟨valuation, machine, rfl, rfl, hsim⟩
  | cons node rest ih =>
    rw [List.zipIdx_cons] at hwritten hsim
    cases hwritten with
    | @cons _ _ statement statements hstatement hrest =>
      rw [List.flatMap_cons, List.append_assoc] at hsim
      have hnode : graph.nodes[before.length]? = some node := by
        rw [hsplit, List.getElem?_append_right (le_refl _), Nat.sub_self]
        rfl
      obtain ⟨bound, next, hexecute, hafter, hnext⟩ := hsim.execute haccepted hnode
        (List.subset_append_of_subset_right _ hheld) hstatement meaning
      have hlength : before.length + 1 = (before ++ [node]).length := by
        rw [List.length_append, List.length_singleton]
      rw [hlength] at hnext hrest
      obtain ⟨reached, final, hfinal, hreached, hlast⟩ :=
        ih (by rw [hsplit, List.append_assoc, List.singleton_append]) hnext hrest
      refine ⟨reached, final, ?_, ?_, hlast⟩
      · rw [List.foldlM_cons, hexecute]
        exact hfinal
      · rw [List.foldlM_cons, hafter]
        exact hreached

/-- A body that is written for an accepted graph returns what the graph returns. -/
theorem Simulates.run (haccepted : graph.Accepted) (meaning : Interpretation V) {body : Body}
    {machine : Machine V}
    (hsim : Simulates graph arguments constants 0 (graph.reads ++ (graph.holds ++ later))
      (graph.valuation arguments constants) machine)
    (hwritten : WrittenBody ops graph style later body) :
    ∃ values final, graph.denote meaning arguments constants = some values ∧
      body.run meaning machine = .ok (values, final) ∧
      (∀ name ∈ graph.inputs, final.Holds (sanitize name) (arguments name) true) ∧
      ∀ name ∈ graph.constants, final.Holds ("self." ++ sanitize name) (constants name) true := by
  have hheld : graph.holds ⊆ graph.holds ++ later := List.subset_append_left _ _
  rw [Graph.reads, List.append_assoc] at hsim
  obtain ⟨reached, executed, hexecuted, hreached, hlast⟩ :=
    Simulates.foldlM_execute haccepted meaning graph.nodes (List.nil_append _).symm hsim
      (List.subset_append_of_subset_right _ hheld) hwritten.statements
  have hreturns : (graph.outputs.map fun name ↦ (name, true)).flatMap
      (fun slot ↦ graph.readsAt graph.nodes.length [slot.1]) =
      graph.readsAt graph.nodes.length graph.outputs := by
    rw [List.flatMap_map, Graph.flatMap_readsAt]
  rw [← hreturns] at hlast
  have hnames : ∀ slot ∈ graph.outputs.map (fun name ↦ (name, true)),
      graph.tensors.contains slot.1 = true := by
    intro slot hslot
    obtain ⟨name, hname, rfl⟩ := List.mem_map.mp hslot
    exact haccepted.roles name (.inr (.inr hname))
  obtain ⟨returned, final, hreturned, hvalues, hfinal, _⟩ :=
    hlast.fetchAll haccepted hnames hheld hwritten.returned
  refine ⟨returned.map Prod.snd, final, ?_, ?_, hfinal.parameters, hfinal.buffers⟩
  · rw [Graph.denote, hreached]
    refine Valuation.mapM_eq_some_of_forall₂ ?_
    rw [List.forall₂_map_left_iff] at hvalues
    exact List.forall₂_map_right_iff.mpr (List.Forall₂.imp (fun _ _ h ↦ h.1) hvalues)
  · rw [Body.run, hexecuted]
    show (executed.fetchAll body.returned >>= _) = _
    rw [hreturned]
    rfl

end Statements

end Handover
