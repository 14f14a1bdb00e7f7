import Handover.Proofs.Program.FirstWalk
import Mathlib.Data.Set.Function

/-!
# Unresolved uses of a graph

When distinct names of a graph have distinct identifier forms (`Graph.DistinctForms`), a read of a
name at a position resolves to no generation exactly when no input and no node before the position
defines the name (`Graph.origin_isNone_iff`). So the unresolved uses of a graph without returned
constants are the reads of nodes that come too early (`earlyReadsAfter`) and then the outputs that
nothing provides (`Graph.unprovidedOutputs`), in the order of the first walk
(`filter_registeredUses`).
-/

set_option autoImplicit false
set_option relaxedAutoImplicit false

namespace Handover

namespace Graph

variable (graph : Graph)

/-- Every name that occurs in a graph. -/
def allNames : List String :=
  graph.tensors.keys ++ graph.inputs ++ graph.outputs ++ graph.constants ++
    graph.nodes.flatMap fun node ↦ node.inputs ++ node.outputs

/-- Distinct names of a graph have distinct identifier forms. -/
def DistinctForms : Prop := Set.InjOn sanitize {name | name ∈ graph.allNames}

/-- The names that the inputs and the nodes before an index define. -/
def definedBefore (index : Nat) : List String :=
  graph.inputs ++ (graph.nodes.take index).flatMap Node.outputs

/-- The outputs of a graph that neither an input nor a node provides. -/
def unprovidedOutputs : List String :=
  graph.outputs.filter fun name ↦
    !graph.inputs.contains name && graph.nodes.all fun node ↦ !node.outputs.contains name

end Graph

/-- The reads of nodes at their places of names that are not defined when some names are defined
before the first node, with their sites. -/
def earlyReadsAfter (defined : List String) : List (Node × Nat) → List (Site × String)
  | [] => []
  | (node, index) :: rest =>
    (node.inputs.filter fun name ↦ !defined.contains name).map
        (fun name ↦ (⟨some node.id, index⟩, name)) ++
      earlyReadsAfter (defined ++ node.outputs) rest

section Unresolved

variable {graph : Graph}

theorem mem_definedBefore_iff {name : String} {index : Nat} :
    name ∈ graph.definedBefore index ↔ name ∈ graph.inputs ∨
      ∃ (place : Nat) (node : Node), graph.nodes[place]? = some node ∧ place < index ∧
        name ∈ node.outputs := by
  rw [Graph.definedBefore, List.mem_append, List.mem_flatMap]
  refine or_congr_right ?_
  constructor
  · rintro ⟨node, hnode, hname⟩
    obtain ⟨place, hplace⟩ := List.mem_iff_getElem?.mp hnode
    rw [List.getElem?_take] at hplace
    split_ifs at hplace with hlt
    exact ⟨place, node, hplace, hlt, hname⟩
  · rintro ⟨place, node, hplace, hlt, hname⟩
    refine ⟨node, List.mem_iff_getElem?.mpr ⟨place, ?_⟩, hname⟩
    rw [List.getElem?_take, if_pos hlt, hplace]

theorem mem_allNames_of_input {name : String} (hname : name ∈ graph.inputs) :
    name ∈ graph.allNames := by
  simp [Graph.allNames, hname]

theorem mem_allNames_of_output {name : String} (hname : name ∈ graph.outputs) :
    name ∈ graph.allNames := by
  simp [Graph.allNames, hname]

theorem mem_allNames_of_node {node : Node} (hnode : node ∈ graph.nodes) {name : String}
    (hname : name ∈ node.inputs ∨ name ∈ node.outputs) : name ∈ graph.allNames := by
  refine List.mem_append_right _ (List.mem_flatMap.mpr ⟨node, hnode, ?_⟩)
  exact List.mem_append.mpr hname

/-- A read of a name at a position resolves to no generation exactly when nothing before the
position defines the name. Assumes: distinct identifier forms. -/
theorem origin_isNone_iff (hforms : graph.DistinctForms) {name : String}
    (hname : name ∈ graph.allNames) (index : Nat) :
    (graph.origin ⟨sanitize name, index⟩).isNone = true ↔ name ∉ graph.definedBefore index := by
  rw [Option.isNone_iff_eq_none, Graph.origin_eq_none_iff, mem_definedBefore_iff]
  constructor
  · rintro hlater (hinput | ⟨place, node, hplace, hlt, hbinds⟩)
    · have hzero := hlater 0 (Graph.zero_mem_producedAt_iff.mpr ⟨name, hinput, rfl⟩)
      exact absurd hzero (by show ¬ (index : Int) < 0; omega)
    · have hafter := hlater (place + 1) (Graph.mem_producedAt_iff.mpr
        (.inr ⟨place, node, hplace, List.mem_map_of_mem hbinds, rfl⟩))
      exact absurd hafter (by show ¬ (index : Int) < place + 1; omega)
  · intro hundefined position hposition
    rw [not_or] at hundefined
    rcases Graph.mem_producedAt_iff.mp hposition with
      ⟨_, other, hinput, hident⟩ | ⟨place, node, hplace, hident, rfl⟩
    · have hsame := hforms (mem_allNames_of_input hinput) hname hident
      exact absurd (hsame ▸ hinput) hundefined.1
    · obtain ⟨other, hbinds, hident⟩ := List.mem_map.mp hident
      have hnode := List.mem_of_getElem? hplace
      have hsame := hforms (mem_allNames_of_node hnode (.inr hbinds)) hname hident
      have hnotBefore : ¬ place < index := fun hlt ↦
        hundefined.2 ⟨place, node, hplace, hlt, hsame ▸ hbinds⟩
      show (index : Int) < place + 1
      omega

/-! ### The unresolved uses -/

/-- Whether the use at a site resolves to no generation. -/
def Graph.isUnresolved (graph : Graph) (entry : Site × String) : Bool :=
  (graph.origin (Site.use entry)).isNone

theorem filterMap_read?_futureUses (site : Site) (names : List String) :
    (names.map (BuildCall.futureUse site)).filterMap BuildCall.read? =
      names.map fun name ↦ (site, name) := by
  rw [List.filterMap_map]
  exact List.filterMap_eq_map_iff_forall_eq_some.mpr fun name _ ↦ rfl

theorem filterMap_read?_produces (names : List String) (position : Int) :
    (names.map fun name ↦ BuildCall.produce name position).filterMap BuildCall.read? = [] := by
  rw [List.filterMap_map, List.filterMap_eq_nil_iff]
  exact fun name _ ↦ rfl

/-- The holds of inputs are never unresolved. -/
theorem filter_inputCalls :
    ((graph.inputs.flatMap Graph.inputCalls).filterMap BuildCall.read?).filter graph.isUnresolved =
      [] := by
  rw [List.filter_eq_nil_iff]
  intro entry hentry
  obtain ⟨call, hcall, hread⟩ := List.mem_filterMap.mp hentry
  obtain ⟨name, hname, hcall⟩ := List.mem_flatMap.mp hcall
  simp only [Graph.inputCalls, List.mem_cons, List.not_mem_nil, or_false] at hcall
  rcases hcall with rfl | rfl
  · cases hread
  · obtain rfl := Option.some.inj hread
    show ¬ (graph.origin ⟨sanitize name, 0⟩).isNone = true
    rw [Graph.origin_hold hname]
    exact Bool.false_ne_true

theorem filter_nodeCalls (hforms : graph.DistinctForms) {node : Node} (hnode : node ∈ graph.nodes)
    {index : Nat} {defined : List String}
    (hdefined : ∀ name, name ∈ defined ↔
      name ∈ graph.constants ∨ name ∈ graph.definedBefore index) :
    ((graph.nodeCalls node index).filterMap BuildCall.read?).filter graph.isUnresolved =
      (node.inputs.filter fun name ↦ !defined.contains name).map
        fun name ↦ (⟨some node.id, index⟩, name) := by
  rw [Graph.nodeCalls, List.filterMap_append, filterMap_read?_futureUses, filterMap_read?_produces,
    List.append_nil, List.filter_map, List.filter_filter]
  congr 1
  refine List.filter_congr fun name hname ↦ ?_
  have horigin := origin_isNone_iff hforms (mem_allNames_of_node hnode (.inl hname)) index
  show ((graph.origin ⟨sanitize name, index⟩).isNone && !graph.isConstant name) =
    !defined.contains name
  rw [Bool.eq_iff_iff, Bool.and_eq_true, horigin, Bool.not_eq_true', Bool.not_eq_true',
    ← Bool.not_eq_true, ← Bool.not_eq_true, Graph.isConstant, List.contains_iff_mem,
    List.contains_iff_mem, hdefined, not_or, and_comm]

/-- A node defines its outputs for the positions after it. -/
theorem definedBefore_append {before rest : List Node} {node : Node}
    (hsplit : graph.nodes = before ++ [node] ++ rest) :
    graph.definedBefore (before ++ [node]).length =
      graph.definedBefore before.length ++ node.outputs := by
  have hthrough : graph.nodes.take (before ++ [node]).length = before ++ [node] := by
    rw [hsplit, List.take_left]
  have hbefore : graph.nodes.take before.length = before := by
    rw [hsplit, List.append_assoc, List.take_left]
  rw [Graph.definedBefore, Graph.definedBefore, hbefore, hthrough, List.flatMap_append,
    List.append_assoc]
  simp

/-- The unresolved reads of the nodes from an index on. -/
theorem filter_nodes (hforms : graph.DistinctForms) (rest : List Node) {before : List Node}
    (hsplit : graph.nodes = before ++ rest) {defined : List String}
    (hdefined : ∀ name, name ∈ defined ↔
      name ∈ graph.constants ∨ name ∈ graph.definedBefore before.length) :
    (((rest.zipIdx before.length).flatMap fun entry ↦
        graph.nodeCalls entry.1 entry.2).filterMap BuildCall.read?).filter graph.isUnresolved =
      earlyReadsAfter defined (rest.zipIdx before.length) := by
  induction rest generalizing before defined with
  | nil => rfl
  | cons node rest ih =>
    have hnode : node ∈ graph.nodes := by
      rw [hsplit]
      exact List.mem_append_right _ (List.mem_cons_self ..)
    have hsnoc : graph.nodes = before ++ [node] ++ rest :=
      hsplit.trans (List.append_cons before node rest)
    have hnext : ∀ name, name ∈ defined ++ node.outputs ↔
        name ∈ graph.constants ∨ name ∈ graph.definedBefore (before ++ [node]).length := by
      intro name
      rw [definedBefore_append hsnoc, List.mem_append, List.mem_append, hdefined, or_assoc]
    have hlater := ih hsnoc hnext
    rw [List.length_append, List.length_singleton] at hlater
    rw [List.zipIdx_cons, List.flatMap_cons, List.filterMap_append, List.filter_append, hlater,
      filter_nodeCalls hforms hnode hdefined]
    rfl

theorem filter_outputCalls (hforms : graph.DistinctForms) :
    ((graph.outputs.map (BuildCall.futureUse graph.returnSite)).filterMap BuildCall.read?).filter
        graph.isUnresolved =
      graph.unprovidedOutputs.map fun name ↦ (graph.returnSite, name) := by
  rw [filterMap_read?_futureUses, List.filter_map, Graph.unprovidedOutputs]
  congr 1
  refine List.filter_congr fun name hname ↦ ?_
  have horigin := origin_isNone_iff hforms (mem_allNames_of_output hname) graph.nodes.length
  show (graph.origin ⟨sanitize name, graph.nodes.length⟩).isNone = _
  rw [Bool.eq_iff_iff, horigin, Graph.definedBefore, List.take_length]
  simp

/-- The unresolved uses of a graph are its early reads and then its unprovided outputs. Assumes:
distinct identifier forms. -/
theorem filter_registeredUses (hforms : graph.DistinctForms) :
    graph.registeredUses.filter graph.isUnresolved =
      earlyReadsAfter (graph.inputs ++ graph.constants) graph.nodes.zipIdx ++
        graph.unprovidedOutputs.map fun name ↦ (graph.returnSite, name) := by
  have hdefined : ∀ name, name ∈ graph.inputs ++ graph.constants ↔
      name ∈ graph.constants ∨ name ∈ graph.definedBefore ([] : List Node).length := by
    intro name
    simp [Graph.definedBefore, or_comm]
  have hnodes := filter_nodes hforms graph.nodes (List.nil_append _).symm hdefined
  rw [List.length_nil] at hnodes
  rw [Graph.registeredUses, Graph.buildCalls, List.filterMap_append, List.filterMap_append,
    List.filter_append, List.filter_append, filter_inputCalls, hnodes, filter_outputCalls hforms,
    List.nil_append]

/-- The first unresolved use of a graph is its first early read, or else the first output that
nothing provides. Assumes: distinct identifier forms. -/
theorem firstUnresolved?_eq (hforms : graph.DistinctForms) :
    graph.firstUnresolved? =
      (earlyReadsAfter (graph.inputs ++ graph.constants) graph.nodes.zipIdx ++
        graph.unprovidedOutputs.map fun name ↦ (graph.returnSite, name)).head? := by
  rw [← filter_registeredUses hforms, List.head?_filter]
  rfl

end Unresolved

end Handover
