import Handover.Proofs.Graph.Recording

/-!
# Graphs that are built anew

What reading the record of a graph makes of it, whatever the state of the graph (`Graph.Rebuilds`,
`rebuilds_of_ofRecord`). Nothing of the indices goes into the record: the graph that is read is
built from the nodes as they stand, which it numbers anew, under the same registered names and with
the same roles. So every name of a node has to be registered, and every node has to bind something.
-/

set_option autoImplicit false
set_option relaxedAutoImplicit false

namespace Handover

/-- Whether a node is another one with a number of its own and plain attributes. -/
structure Node.Renumbered (node renumbered : Node) : Prop where
  op : renumbered.op = node.op
  inputs : renumbered.inputs = node.inputs
  outputs : renumbered.outputs = node.outputs
  attrs : renumbered.attrs = node.attrs.plain

namespace Graph

/-- Whether a graph is built from the nodes, the registered names and the roles of another one. -/
structure Rebuilds (graph copy : Graph) : Prop where
  built : copy.Built
  keys : copy.tensors.keys = graph.tensors.keys
  inputs : copy.inputs = graph.inputs
  outputs : copy.outputs = graph.outputs
  constants : copy.constants = graph.constants
  nodes : List.Forall₂ Node.Renumbered graph.nodes copy.nodes

section Rebuilding

variable {graph next final : Graph}

/-- Assumes: a tensor that is read from its record. -/
theorem eq_of_addRecordedTensor {entry : String × TensorInfo}
    (hnext : graph.addRecordedTensor (entry.1, entry.2.toRecord) = .ok next) :
    next.tensors.keys = graph.tensors.keys ++ [entry.1] ∧ next.nodes = graph.nodes := by
  have hadded : graph.addTensor entry.1 entry.2.shape entry.2.elementType = .ok next := hnext
  have hnew := not_contains_of_addTensor hadded
  obtain rfl := addTensor_eq_ok hadded
  refine ⟨?_, rfl⟩
  show (graph.tensors.insert entry.1 _).keys = _
  rw [OrderedMap.keys_insert, hnew, if_neg Bool.false_ne_true]

theorem eq_of_foldlM_addRecordedTensor {entries : List (String × TensorInfo)}
    (hfinal : (entries.map fun entry ↦ (entry.1, entry.2.toRecord)).foldlM addRecordedTensor graph =
      .ok final) :
    final.tensors.keys = graph.tensors.keys ++ entries.map Prod.fst ∧
      final.nodes = graph.nodes := by
  induction entries generalizing graph with
  | nil =>
    obtain rfl := Except.ok.inj hfinal
    simp
  | cons entry rest ih =>
    rw [List.map_cons, List.foldlM_cons] at hfinal
    obtain ⟨next, hnext, hrest⟩ := Result.bind_eq_ok_iff.mp hfinal
    obtain ⟨hkeys, hnodes⟩ := eq_of_addRecordedTensor hnext
    obtain ⟨hlater, hkept⟩ := ih hrest
    exact ⟨by simp [hlater, hkeys], hkept.trans hnodes⟩

/-- Names that are all looked up are registered. -/
theorem contains_of_mapM_registeredName {missing : String → Complaint} {names found : List String}
    (hfound : (names.map Attr.text).mapM (graph.registeredName missing) = .ok found) :
    ∀ name ∈ names, graph.tensors.contains name = true := by
  intro name hname
  obtain ⟨other, _, hother⟩ := Result.exists_result_of_mem hfound (List.mem_map_of_mem hname)
  unfold registeredName at hother
  dsimp only at hother
  split_ifs at hother with hcontains
  · exact hcontains
  · cases hother

/-- A node is read from its record as `addNode` appends it. -/
theorem addNode_of_addRecordedNode {node : Node}
    (hnext : graph.addRecordedNode node.toRecord = .ok next) :
    graph.addNode node.op node.inputs node.outputs node.attrs = .ok next := by
  have hcalls : (do
      let op ← Op.ofAttr (.text node.op.name)
      if !(Attr.list (node.outputs.map Attr.text)).isTrue then
        complains (.noOutputs op)
      let inputs ← (node.inputs.map Attr.text).mapM (graph.registeredName .unregisteredInput)
      let outputs ← (node.outputs.map Attr.text).mapM (graph.registeredName .unregisteredOutput)
      let fields ← if (Attr.record node.attrs.entries).isTrue then .ok node.attrs else pure {}
      graph.addNode op inputs outputs fields) = .ok next := hnext
  obtain ⟨op, _, hcalls⟩ := Result.bind_eq_ok_iff.mp hcalls
  have hbound : node.outputs ≠ [] := by
    intro hnone
    rw [hnone] at hcalls
    cases hcalls
  have htrue : (Attr.list (node.outputs.map Attr.text)).isTrue = true := by
    simpa [Attr.isTrue] using hbound
  rw [htrue] at hcalls
  obtain ⟨inputs, hinputs, hcalls⟩ := Result.bind_eq_ok_iff.mp hcalls
  obtain ⟨outputs, houtputs, _⟩ := Result.bind_eq_ok_iff.mp hcalls
  rw [← hnext, addRecordedNode_toRecord hbound]
  rintro name (hname | hname)
  · exact contains_of_mapM_registeredName hinputs name hname
  · exact contains_of_mapM_registeredName houtputs name hname

/-- The nodes of a record are appended, each with the next number. -/
theorem rebuilds_of_foldlM_addRecordedNode {nodes : List Node}
    (hfinal : (nodes.map Node.toRecord).foldlM addRecordedNode graph = .ok final) :
    ∃ added, final = { final with
        tensors := graph.tensors, inputs := graph.inputs, outputs := graph.outputs
        constants := graph.constants, nodes := graph.nodes ++ added } ∧
      List.Forall₂ Node.Renumbered nodes added := by
  induction nodes generalizing graph with
  | nil =>
    obtain rfl := Except.ok.inj hfinal
    exact ⟨[], by simp, .nil⟩
  | cons node rest ih =>
    rw [List.map_cons, List.foldlM_cons] at hfinal
    obtain ⟨next, hnext, hrest⟩ := Result.bind_eq_ok_iff.mp hfinal
    obtain ⟨-, -, rfl⟩ := addNode_eq_ok_iff.mp (addNode_of_addRecordedNode hnext)
    obtain ⟨added, heq, hadded⟩ := ih hrest
    refine ⟨graph.nextNode node.op node.inputs node.outputs node.attrs :: added, ?_,
      .cons ⟨rfl, rfl, rfl, rfl⟩ hadded⟩
    simp only [appendNode, List.append_assoc, List.singleton_append] at heq
    exact heq

end Rebuilding

/-- The graph that is read from the record of a graph is that graph built anew. -/
theorem rebuilds_of_ofRecord {graph copy : Graph} (hcopy : ofRecord graph.toRecord = .ok copy) :
    Rebuilds graph copy := by
  have hbuilt : copy.Built := built_of_ofRecord _ copy hcopy
  have hcalls := ofRecord_eq graph []
  rw [List.append_nil] at hcalls
  rw [toRecord, hcalls] at hcopy
  obtain ⟨loaded, hloaded, hnodes⟩ := Result.bind_eq_ok_iff.mp hcopy
  obtain ⟨hkeys, hnone⟩ := eq_of_foldlM_addRecordedTensor hloaded
  obtain ⟨added, heq, hadded⟩ := rebuilds_of_foldlM_addRecordedNode hnodes
  rw [hnone] at heq
  rw [heq] at hbuilt ⊢
  exact ⟨hbuilt, hkeys, rfl, rfl, rfl, hadded⟩

end Graph

end Handover
