import Handover.Graph.Record
import Handover.Proofs.Computation
import Handover.Proofs.OrderedMap

/-!
# Graphs that are built

The graphs that the building calls make, with roles that may be assigned at any time
(`Graph.Built`); a refused call leaves one of them, and reading a record makes one
(`built_of_ofRecord`). The indices of such a graph agree with its nodes (`Graph.Consistent`,
`Built.consistent`): a node is found at its place (`Consistent.indexOf`), the producers of a name
are the nodes that bind it (`Consistent.producers`), and every name of a node is registered.
-/

set_option autoImplicit false
set_option relaxedAutoImplicit false

namespace Handover

namespace Graph

/-- The graphs that the building calls make. The roles of names may be assigned at any time. -/
inductive Built : Graph → Prop
  | empty (name : String) : Built { name }
  | addTensor {graph next : Graph} {name : String} {shape : List Attr} {elementType : String}
      (hbuilt : Built graph) (hnext : graph.addTensor name shape elementType = .ok next) :
      Built next
  | addInput {graph next : Graph} {name : String} {shape : List Attr} {elementType : String}
      (hbuilt : Built graph) (hnext : graph.addInput name shape elementType = .ok next) : Built next
  | addConstant {graph next : Graph} {name : String} {data : Strided} (hbuilt : Built graph)
      (hnext : graph.addConstant name data = .ok next) : Built next
  | addNode {graph next : Graph} {op : Op} {inputs outputs : List String} {attrs : Attrs}
      (hbuilt : Built graph) (hnext : graph.addNode op inputs outputs attrs = .ok next) : Built next
  | refuseNode {graph : Graph} {op : Op} {inputs outputs : List String} {attrs : Attrs}
      {err : Error} (hbuilt : Built graph)
      (hrefused : graph.addNode op inputs outputs attrs = .error err) :
      Built (graph.afterRefusal op inputs outputs)
  | assignRoles {graph : Graph} (hbuilt : Built graph) (inputs outputs constants : List String) :
      Built { graph with inputs, outputs, constants }

/-- The indices of a graph agree with its nodes: identifiers go up from node to node and are taken
before the next one, the index of places has the place of a node, the index of producers lists the
nodes that bind a name, and the names of nodes are registered. -/
structure Consistent (graph : Graph) : Prop where
  ids : (graph.nodes.map Node.id).Pairwise (· < ·)
  taken : ∀ node ∈ graph.nodes, node.id < graph.nextId
  places : ∀ (index : Nat) node, graph.nodes[index]? = some node →
    graph.places.find? node.id = some index
  producerIds : ∀ name, (graph.producerIds.find? name).getD [] =
    (graph.nodes.filter fun node ↦ node.outputs.contains name).map Node.id
  registered : ∀ node ∈ graph.nodes, ∀ name, name ∈ node.inputs ∨ name ∈ node.outputs →
    graph.tensors.contains name = true

section Calls

variable {graph next : Graph} {name : String} {shape : List Attr} {elementType : String}

/-- What `addTensor` makes. -/
theorem addTensor_eq_ok (hnext : graph.addTensor name shape elementType = .ok next) :
    next = { graph with
      tensors := graph.tensors.insert name { name, shape, elementType }
      consumerIds := graph.consumerIds.insert name [] } := by
  unfold addTensor at hnext
  split_ifs at hnext
  · cases hnext
  · exact (Except.ok.inj hnext).symm

/-- A name that `addTensor` takes is new. -/
theorem not_contains_of_addTensor (hnext : graph.addTensor name shape elementType = .ok next) :
    graph.tensors.contains name = false := by
  rw [← Bool.not_eq_true]
  intro hcontains
  rw [addTensor, if_pos hcontains] at hnext
  cases hnext

/-- A graph with more registered names keeps its indices consistent. -/
theorem Consistent.of_tensors (hconsistent : Consistent graph) (hnodes : next.nodes = graph.nodes)
    (hproducers : next.producerIds = graph.producerIds) (hplaces : next.places = graph.places)
    (hid : graph.nextId ≤ next.nextId)
    (htensors : ∀ name, graph.tensors.contains name = true → next.tensors.contains name = true) :
    Consistent next := by
  refine ⟨?_, ?_, ?_, ?_, ?_⟩
  · rw [hnodes]
    exact hconsistent.ids
  · rw [hnodes]
    exact fun node hnode ↦ Nat.lt_of_lt_of_le (hconsistent.taken node hnode) hid
  · rw [hnodes, hplaces]
    exact hconsistent.places
  · rw [hnodes, hproducers]
    exact hconsistent.producerIds
  · rw [hnodes]
    exact fun node hnode name hname ↦ htensors name (hconsistent.registered node hnode name hname)

theorem contains_insert_of_contains {tensors : OrderedMap String TensorInfo} {other : String}
    (hother : tensors.contains other = true) (name : String) (info : TensorInfo) :
    (tensors.insert name info).contains other = true :=
  (OrderedMap.contains_insert tensors name other info).mpr (.inr hother)

theorem Consistent.addTensor (hconsistent : Consistent graph)
    (hnext : graph.addTensor name shape elementType = .ok next) : Consistent next := by
  obtain rfl := addTensor_eq_ok hnext
  exact hconsistent.of_tensors rfl rfl rfl (Nat.le_refl _) fun _ hother ↦
    contains_insert_of_contains hother _ _

/-- The identifiers under a key after an item was put at the end of the lists of some keys. -/
theorem getD_find?_appendAt (item : Nat) {keys : List String} (hnodup : keys.Nodup)
    (map : OrderedMap String (List Nat)) (key : String) :
    ((appendAt item keys map).find? key).getD [] =
      (map.find? key).getD [] ++ if key ∈ keys then [item] else [] := by
  induction keys generalizing map with
  | nil => simp [appendAt]
  | cons head rest ih =>
    obtain ⟨hhead, hrest⟩ := List.nodup_cons.mp hnodup
    show ((appendAt item rest (map.push head item)).find? key).getD [] = _
    rw [ih hrest, OrderedMap.getD_find?_push]
    by_cases hkey : key = head
    · subst key
      rw [if_pos rfl, if_neg hhead, if_pos (List.mem_cons_self ..), List.append_nil]
    · simp [hkey]

/-- The names of a node are accepted if it binds something and all of them are registered. -/
theorem requireNames_eq_ok_iff {op : Op} {inputs outputs : List String} :
    graph.requireNames op inputs outputs = .ok () ↔ outputs ≠ [] ∧
      ∀ name, name ∈ inputs ∨ name ∈ outputs → graph.tensors.contains name = true := by
  have hall (names : List String) : names.find? (fun name ↦ !graph.tensors.contains name) = none ↔
      ∀ name ∈ names, graph.tensors.contains name = true := by
    simp
  simp only [or_imp, forall_and, ← hall]
  unfold requireNames
  cases outputs with
  | nil => simp [complains, Result.bind_eq_ok_iff]
  | cons output rest =>
    rw [List.isEmpty_cons, if_neg (by decide)]
    dsimp only
    cases inputs.find? fun name ↦ !graph.tensors.contains name with
    | some missing => simp [complains, Result.bind_eq_ok_iff]
    | none =>
      dsimp only
      cases (output :: rest).find? fun name ↦ !graph.tensors.contains name with
      | some missing => simp [complains]
      | none => exact ⟨fun _ ↦ ⟨List.cons_ne_nil _ _, rfl, rfl⟩, fun _ ↦ rfl⟩

/-- What `addNode` makes, of names that are registered and of attributes that can be made anew. -/
theorem addNode_eq_ok_iff {op : Op} {inputs outputs : List String} {attrs : Attrs} :
    graph.addNode op inputs outputs attrs = .ok next ↔
      graph.requireNames op inputs outputs = .ok () ∧ attrs.areRemakable = true ∧
        graph.appendNode (graph.nextNode op inputs outputs attrs) = next := by
  unfold addNode
  rw [Result.bind_eq_ok_iff]
  split_ifs with hattrs
  · exact ⟨fun ⟨_, hnames, hnext⟩ ↦ ⟨hnames, hattrs, Except.ok.inj hnext⟩,
      fun ⟨hnames, _, hnext⟩ ↦ ⟨(), hnames, congrArg Except.ok hnext⟩⟩
  · exact ⟨fun ⟨_, _, hnext⟩ ↦ (nomatch hnext), fun ⟨_, hremade, _⟩ ↦ absurd hremade hattrs⟩

/-- A node whose attributes can be made anew is appended when it binds something and its names are
registered. -/
theorem addNode_eq_ok (op : Op) {inputs outputs : List String} {attrs : Attrs}
    (hsome : outputs ≠ [])
    (hregistered : ∀ name, name ∈ inputs ∨ name ∈ outputs → graph.tensors.contains name = true)
    (hattrs : attrs.areRemakable = true) :
    graph.addNode op inputs outputs attrs =
      .ok (graph.appendNode (graph.nextNode op inputs outputs attrs)) :=
  addNode_eq_ok_iff.mpr ⟨requireNames_eq_ok_iff.mpr ⟨hsome, hregistered⟩, hattrs, rfl⟩

/-- What is true of a graph and of the graph with the next identifier taken is true of what a
refused call leaves. -/
theorem afterRefusal_of {condition : Graph → Prop} (op : Op) (inputs outputs : List String)
    (hkept : condition graph) (hlost : condition { graph with nextId := graph.nextId + 1 }) :
    condition (graph.afterRefusal op inputs outputs) := by
  unfold afterRefusal
  split
  · exact hkept
  · exact hlost

theorem nodes_afterRefusal (op : Op) (inputs outputs : List String) :
    (graph.afterRefusal op inputs outputs).nodes = graph.nodes := by
  unfold afterRefusal
  split <;> rfl

theorem tensors_afterRefusal (op : Op) (inputs outputs : List String) :
    (graph.afterRefusal op inputs outputs).tensors = graph.tensors := by
  unfold afterRefusal
  split <;> rfl

theorem Consistent.addNode (hconsistent : Consistent graph) {op : Op}
    {inputs outputs : List String} {attrs : Attrs}
    (hnext : graph.addNode op inputs outputs attrs = .ok next) : Consistent next := by
  obtain ⟨hnames, -, rfl⟩ := addNode_eq_ok_iff.mp hnext
  obtain ⟨-, hregistered⟩ := requireNames_eq_ok_iff.mp hnames
  have hnew (node : Node) (hnode : node ∈ graph.nodes) : node.id ≠ graph.nextId :=
    Nat.ne_of_lt (hconsistent.taken node hnode)
  refine ⟨?_, ?_, ?_, ?_, ?_⟩
  · show (List.map Node.id (graph.nodes ++ [_])).Pairwise (· < ·)
    rw [List.map_append, List.pairwise_append]
    refine ⟨hconsistent.ids, List.pairwise_singleton _ _, ?_⟩
    simp only [List.forall_mem_map, List.map_singleton, List.forall_mem_singleton]
    exact hconsistent.taken
  · intro node hnode
    show node.id < graph.nextId + 1
    rcases List.mem_append.mp hnode with hnode | hnode
    · exact Nat.lt_succ_of_lt (hconsistent.taken node hnode)
    · rw [List.mem_singleton.mp hnode]
      exact Nat.lt_succ_self _
  · intro index node hnode
    show (graph.places.insert graph.nextId graph.nodes.length).find? node.id = some index
    have hnode : (graph.nodes ++ [graph.nextNode op inputs outputs attrs])[index]? = some node :=
      hnode
    rw [List.getElem?_append] at hnode
    split_ifs at hnode with hindex
    · rw [OrderedMap.find?_insert_of_ne _ (hnew node (List.mem_of_getElem? hnode))]
      exact hconsistent.places index node hnode
    · rw [List.getElem?_singleton] at hnode
      split_ifs at hnode
      obtain rfl := Option.some.inj hnode
      rw [nextNode, OrderedMap.find?_insert_self]
      congr 1
      omega
  · intro name
    show ((appendAt graph.nextId (OrderedMap.dedup outputs) graph.producerIds).find? name).getD
      [] = ((graph.nodes ++ [graph.nextNode op inputs outputs attrs]).filter _).map Node.id
    rw [getD_find?_appendAt _ (OrderedMap.nodup_dedup outputs), hconsistent.producerIds,
      List.filter_append, List.map_append]
    congr 1
    by_cases hname : name ∈ outputs
    · rw [if_pos (OrderedMap.mem_dedup.mpr hname)]
      simp [nextNode, hname]
    · rw [if_neg fun h ↦ hname (OrderedMap.mem_dedup.mp h)]
      simp [nextNode, hname]
  · intro node hnode name hname
    rcases List.mem_append.mp hnode with hnode | hnode
    · exact hconsistent.registered node hnode name hname
    · rw [List.mem_singleton.mp hnode] at hname
      exact hregistered name hname

/-- The indices of a graph that is built agree with its nodes. -/
theorem Built.consistent (hbuilt : Built graph) : Consistent graph := by
  induction hbuilt with
  | empty name => exact ⟨.nil, by simp, by simp, fun _ ↦ rfl, by simp⟩
  | addTensor _ hnext ih => exact ih.addTensor hnext
  | addInput _ hnext ih =>
    obtain ⟨extended, hextended, hnext⟩ := Result.bind_eq_ok_iff.mp hnext
    obtain rfl := Except.ok.inj hnext
    exact (ih.addTensor hextended).of_tensors rfl rfl rfl (Nat.le_refl _) fun _ hother ↦ hother
  | addConstant _ hnext ih =>
    obtain ⟨extended, hextended, hnext⟩ := Result.bind_eq_ok_iff.mp hnext
    obtain rfl := Except.ok.inj hnext
    exact (ih.addTensor hextended).of_tensors rfl rfl rfl (Nat.le_refl _)
      fun _ hother ↦ contains_insert_of_contains hother _ _
  | addNode _ hnext ih => exact ih.addNode hnext
  | refuseNode _ _ ih =>
    exact afterRefusal_of _ _ _ ih
      (ih.of_tensors rfl rfl rfl (Nat.le_succ _) fun _ hother ↦ hother)
  | assignRoles _ inputs outputs constants ih =>
    exact ih.of_tensors rfl rfl rfl (Nat.le_refl _) fun _ hother ↦ hother

/-- What holds of every node that `addNode` appends holds of every node of a graph that is built. -/
theorem Built.forall_node {condition : Node → Prop}
    (happended : ∀ (graph next : Graph) op inputs outputs attrs,
      graph.addNode op inputs outputs attrs = .ok next →
      condition (graph.nextNode op inputs outputs attrs))
    (hbuilt : Built graph) : ∀ node ∈ graph.nodes, condition node := by
  induction hbuilt with
  | empty name => simp
  | addTensor _ hnext ih =>
    obtain rfl := addTensor_eq_ok hnext
    exact ih
  | addInput _ hnext ih | addConstant _ hnext ih =>
    obtain ⟨extended, hextended, hnext⟩ := Result.bind_eq_ok_iff.mp hnext
    obtain rfl := Except.ok.inj hnext
    obtain rfl := addTensor_eq_ok hextended
    exact ih
  | addNode _ hnext ih =>
    have hlast := happended _ _ _ _ _ _ hnext
    obtain ⟨-, -, rfl⟩ := addNode_eq_ok_iff.mp hnext
    intro node hnode
    rcases List.mem_append.mp hnode with hnode | hnode
    · exact ih node hnode
    · rwa [List.mem_singleton.mp hnode]
  | refuseNode _ _ ih =>
    rw [nodes_afterRefusal]
    exact ih
  | assignRoles _ _ _ _ ih => exact ih

theorem Built.outputs_ne_nil (hbuilt : Built graph) : ∀ node ∈ graph.nodes, node.outputs ≠ [] := by
  refine hbuilt.forall_node fun graph next op inputs outputs attrs hnext ↦ ?_
  exact (requireNames_eq_ok_iff.mp (addNode_eq_ok_iff.mp hnext).1).1

end Calls

/-! ### Lookups -/

section Lookups

theorem itemAt_natCast {α : Type} {items : List α} {index : Nat} {item : α}
    (hitem : items[index]? = some item) : itemAt items index = .ok item := by
  have hnonneg : ¬ (index : Int) < 0 := by omega
  have hfound : itemAt? items index = some item := by
    simp only [itemAt?, if_neg hnonneg, Int.toNat_natCast]
    exact hitem
  rw [itemAt, hfound]

variable {graph : Graph} (hconsistent : Consistent graph)

include hconsistent

/-- A node is found at its place. -/
theorem Consistent.indexOf {index : Nat} {node : Node} (hnode : graph.nodes[index]? = some node) :
    graph.indexOf node.id = .ok index := by
  unfold Graph.indexOf
  rw [if_neg (by omega), Int.toNat_natCast, hconsistent.places index node hnode]

theorem Consistent.node {index : Nat} {node : Node} (hnode : graph.nodes[index]? = some node) :
    graph.node node.id = .ok node := by
  unfold Graph.node
  rw [hconsistent.indexOf hnode]
  exact itemAt_natCast hnode

/-- The producers of a name are the nodes that bind it. -/
theorem Consistent.producers (name : String) :
    graph.producers name = .ok (graph.nodes.filter fun node ↦ node.outputs.contains name) := by
  unfold Graph.producers
  rw [hconsistent.producerIds, List.mapM_map, Result.mapM_eq_ok_iff, List.forall₂_same]
  intro node hnode
  obtain ⟨index, hindex⟩ := List.mem_iff_getElem?.mp (List.mem_of_mem_filter hnode)
  exact hconsistent.node hindex

end Lookups

/-! ### Records -/

section Records

variable {condition : Graph → Prop}

theorem addRecordedTensor_ensures {graph : Graph}
    (htensor : ∀ name shape elementType,
      (graph.addTensor name shape elementType).Ensures condition) (entry : String × Attr) :
    (graph.addRecordedTensor entry).Ensures condition :=
  Result.Ensures.bind fun _ _ ↦ Result.Ensures.bind fun _ _ ↦ Result.Ensures.bind fun _ _ ↦
    Result.Ensures.bind fun _ _ ↦ htensor _ _ _

theorem addRecordedNode_ensures {graph : Graph}
    (hnode : ∀ op inputs outputs attrs,
      (graph.addNode op inputs outputs attrs).Ensures condition) (record : Attr) :
    (graph.addRecordedNode record).Ensures condition := by
  refine Result.Ensures.bind fun _ _ ↦ Result.Ensures.bind fun op _ ↦ Result.Ensures.bind
    fun _ _ ↦ Result.Ensures.bind fun outputs _ ↦ Result.Ensures.bind fun fields _ ↦ ?_
  have hrest : ∀ inputItems outputItems attrs : Attr, Result.Ensures condition (do
      let inputNames ← (← inputItems.elements).mapM (graph.registeredName .unregisteredInput)
      let outputNames ← (← outputItems.elements).mapM (graph.registeredName .unregisteredOutput)
      let fields ← if attrs.isTrue then attrs.fields else pure {}
      graph.addNode op inputNames outputNames fields) := by
    intro inputItems outputItems attrs
    refine Result.Ensures.bind fun _ _ ↦ Result.Ensures.bind fun _ _ ↦ Result.Ensures.bind
      fun _ _ ↦ Result.Ensures.bind fun _ _ ↦ ?_
    exact Result.Ensures.ite (Result.Ensures.bind fun _ _ ↦ hnode _ _ _ _) (hnode _ _ _ _)
  exact Result.Ensures.ite (fun _ hnext ↦ by cases hnext) (hrest _ _ _)

/-- What the calls keep that reading a record makes is true of the graph of a record. -/
theorem ofRecord_ensures (hempty : ∀ name, condition { name })
    (htensor : ∀ graph, condition graph → ∀ name shape elementType,
      (graph.addTensor name shape elementType).Ensures condition)
    (hroles : ∀ graph, condition graph → ∀ inputs outputs constants,
      condition { graph with inputs, outputs, constants })
    (hnode : ∀ graph, condition graph → ∀ op inputs outputs attrs,
      (graph.addNode op inputs outputs attrs).Ensures condition) (record : Attr) :
    (ofRecord record).Ensures condition := by
  refine Result.Ensures.bind fun _ _ ↦ Result.Ensures.bind fun name _ ↦ Result.Ensures.bind
    fun _ _ ↦ Result.Ensures.bind fun tensors _ ↦ Result.Ensures.bind fun graph hgraph ↦ ?_
  have htensors : condition graph := Result.Ensures.foldlM (hempty name)
    (fun graph entry hkept ↦ addRecordedTensor_ensures (htensor graph hkept) entry) graph hgraph
  refine Result.Ensures.bind fun _ _ ↦ Result.Ensures.bind fun inputs _ ↦ Result.Ensures.bind
    fun _ _ ↦ Result.Ensures.bind fun constants _ ↦ Result.Ensures.bind fun _ _ ↦
      Result.Ensures.bind fun outputs _ ↦ Result.Ensures.bind fun _ _ ↦ Result.Ensures.bind
        fun nodes _ ↦ ?_
  exact Result.Ensures.foldlM (hroles graph htensors inputs outputs constants)
    fun graph record hkept ↦ addRecordedNode_ensures (hnode graph hkept) record

/-- The graph of a record is built. -/
theorem built_of_ofRecord (record : Attr) : (ofRecord record).Ensures Built :=
  ofRecord_ensures .empty (fun _ hbuilt _ _ _ _ hnext ↦ .addTensor hbuilt hnext)
    (fun _ hbuilt ↦ .assignRoles hbuilt) (fun _ hbuilt _ _ _ _ _ hnext ↦ .addNode hbuilt hnext)
    record

/-- No identifier is lost while a record is read. -/
theorem nextId_of_ofRecord (record : Attr) :
    (ofRecord record).Ensures fun graph ↦ graph.nextId = graph.nodes.length := by
  refine ofRecord_ensures (fun _ ↦ rfl) ?_ (fun _ hsame _ _ _ ↦ hsame) ?_ record
  · rintro graph hsame name shape elementType next hnext
    obtain rfl := addTensor_eq_ok hnext
    exact hsame
  · rintro graph hsame op inputs outputs attrs next hnext
    obtain ⟨-, -, rfl⟩ := addNode_eq_ok_iff.mp hnext
    show graph.nextId + 1 = (graph.nodes ++ [_]).length
    rw [hsame, List.length_append, List.length_singleton]

end Records

end Graph

end Handover
