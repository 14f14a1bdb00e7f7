import Handover.Proofs.Document.Values
import Handover.Proofs.Graph.Indices

/-!
# Graphs from their records

A graph that is built is read back from its record as it was, its data apart and with its nodes
numbered by their places (`ofRecord_recordFields`): the calls that the record makes, all tensors
first and then all nodes, leave the same nodes, the same tensors and the same roles. From the record
that a document gives back it is read with attributes and shapes as the document gives them back
(`ofRecord_stored`).
-/

set_option autoImplicit false
set_option relaxedAutoImplicit false

namespace Handover

/-- The attributes that a document gives back. -/
def Attrs.stored (attrs : Attrs) : Attrs := ⟨Attr.storedFields attrs.entries⟩

/-- The node that a document gives back. -/
def Node.stored (node : Node) : Node := { node with attrs := node.attrs.stored }

/-- What is known of a tensor without its data. -/
def TensorInfo.withoutData (info : TensorInfo) : TensorInfo := { info with buffer := none }

/-- What a document gives back of what is known of a tensor. -/
def TensorInfo.stored (info : TensorInfo) : TensorInfo :=
  { info with shape := Attr.storedItems info.shape, buffer := none }

namespace Attr

theorem plain_withPlainNaN_plain (value : Scalar) :
    value.plain.withPlainNaN.plain = value.plain.withPlainNaN := by
  unfold Scalar.plain
  split <;> rfl

theorem plain_plain_scalar (value : Scalar) : value.plain.plain = value.plain := by
  unfold Scalar.plain
  split <;> rfl

mutual

theorem plain_plain (value : Attr) : value.plain.plain = value.plain := by
  cases value with
  | null | bool | int | real | text | record => rfl
  | scalar value => exact plain_plain_scalar value
  | list items | tuple items => simp only [plain, plainItems_plainItems items]

theorem plainItems_plainItems (items : List Attr) :
    plainItems (plainItems items) = plainItems items := by
  cases items with
  | nil => rfl
  | cons item rest =>
    rw [plainItems, plainItems, plain_plain item, plainItems_plainItems rest]

end

mutual

/-- What a document gives back has no scalars. -/
theorem plain_stored (value : Attr) : value.stored.plain = value.stored := by
  cases value with
  | null | bool | int | real | text | record => rfl
  | scalar value => exact plain_withPlainNaN_plain value
  | list items | tuple items => simp only [stored, plain, plainItems_storedItems items]

theorem plainItems_storedItems (items : List Attr) :
    plainItems (storedItems items) = storedItems items := by
  cases items with
  | nil => rfl
  | cons item rest =>
    rw [storedItems, plainItems, plain_stored item, plainItems_storedItems rest]

end

theorem isRemakable_plain_scalar (value : Scalar) : value.plain.isRemakable = true := by
  unfold Scalar.plain
  split <;> rfl

mutual

/-- Plain values do not count for what can be made anew. -/
theorem isRemakable_plain (value : Attr) : value.plain.isRemakable = value.isRemakable := by
  cases value with
  | null | bool | int | real | text | record => rfl
  | scalar value => exact isRemakable_plain_scalar value
  | list items | tuple items =>
    rw [plain, isRemakable, isRemakable, areRemakable_plainItems items]

theorem areRemakable_plainItems (items : List Attr) :
    areRemakable (plainItems items) = areRemakable items := by
  cases items with
  | nil => rfl
  | cons item rest =>
    rw [plainItems, areRemakable, areRemakable, isRemakable_plain item,
      areRemakable_plainItems rest]

end

mutual

/-- What a document gives back can be made anew. -/
theorem isRemakable_stored (value : Attr) : value.stored.isRemakable = true := by
  cases value with
  | null | bool | int | real | text | record => rfl
  | scalar value =>
    rw [stored]
    unfold Scalar.plain
    split <;> rfl
  | list items | tuple items =>
    rw [stored, isRemakable, areRemakable_storedItems items]

theorem areRemakable_storedItems (items : List Attr) : areRemakable (storedItems items) = true := by
  cases items with
  | nil => rfl
  | cons item rest =>
    rw [storedItems, areRemakable, isRemakable_stored item, areRemakable_storedItems rest]
    rfl

end

theorem names_namesAttr (names : List String) :
    (namesAttr names).names = .ok names := by
  show (names.map text).mapM asText = .ok names
  rw [Result.mapM_eq_ok_iff, List.forall₂_map_left_iff, List.forall₂_same]
  exact fun _ _ ↦ rfl

end Attr

theorem Attrs.plain_stored (attrs : Attrs) : attrs.stored.plain = attrs.stored := by
  simp only [Attrs.plain, Attrs.stored, Attr.storedFields_eq_map, List.map_map]
  congr 1
  exact List.map_congr_left fun entry _ ↦ congrArg (Prod.mk entry.1) (Attr.plain_stored entry.2)

/-- Attributes without scalars outside records stay as they are. -/
theorem Attrs.plain_plain (attrs : Attrs) : attrs.plain.plain = attrs.plain := by
  simp only [Attrs.plain, List.map_map]
  congr 1
  exact List.map_congr_left fun entry _ ↦ congrArg (Prod.mk entry.1) (Attr.plain_plain entry.2)

theorem Attrs.areRemakable_plain (attrs : Attrs) :
    attrs.plain.areRemakable = attrs.areRemakable := by
  rw [areRemakable, Attrs.plain, List.all_map]
  exact congrArg attrs.entries.all (funext fun entry ↦ entry.2.isRemakable_plain)

theorem Attrs.areRemakable_stored (attrs : Attrs) : attrs.stored.areRemakable = true := by
  rw [areRemakable, Attrs.stored, Attr.storedFields_eq_map, List.all_map, List.all_eq_true]
  exact fun entry _ ↦ entry.2.isRemakable_stored

theorem Op.ofAttr_name (op : Op) : Op.ofAttr (.text op.name) = .ok op := by
  cases op <;> rfl

namespace Graph

/-! ### Tensors of a graph that is built -/

section Tensors

/-- The tensors of a graph have different names, each is registered under its own, and data that is
at hand has the shape and the element type that are known of its tensor. -/
structure Registered (tensors : OrderedMap String TensorInfo) : Prop where
  nodup : tensors.keys.Nodup
  named : ∀ entry ∈ tensors.entries, entry.2.name = entry.1
  measured : ∀ entry ∈ tensors.entries, ∀ data, entry.2.buffer = some data →
    entry.2.shape = data.tensor.shape.map (fun length : Nat ↦ Attr.int length) ∧
      entry.2.elementType = data.typeName

theorem Registered.insert {tensors : OrderedMap String TensorInfo}
    (hregistered : Registered tensors) (info : TensorInfo)
    (hmeasured : ∀ data, info.buffer = some data →
      info.shape = data.tensor.shape.map (fun length : Nat ↦ Attr.int length) ∧
        info.elementType = data.typeName) :
    Registered (tensors.insert info.name info) := by
  refine ⟨OrderedMap.nodup_keys_insert hregistered.nodup _ _, fun entry hentry ↦ ?_,
    fun entry hentry ↦ ?_⟩
  · rcases OrderedMap.mem_entries_insert hentry with rfl | hentry
    · rfl
    · exact hregistered.named entry hentry
  · rcases OrderedMap.mem_entries_insert hentry with rfl | hentry
    · exact hmeasured
    · exact hregistered.measured entry hentry

theorem Built.registered {graph : Graph} (hbuilt : Built graph) : Registered graph.tensors := by
  induction hbuilt with
  | empty name => exact ⟨List.nodup_nil, by simp, by simp⟩
  | addTensor _ hnext ih =>
    obtain rfl := addTensor_eq_ok hnext
    exact ih.insert ⟨_, _, _, none⟩ (by simp)
  | addInput _ hnext ih =>
    obtain ⟨extended, hextended, hnext⟩ := Result.bind_eq_ok_iff.mp hnext
    obtain rfl := Except.ok.inj hnext
    obtain rfl := addTensor_eq_ok hextended
    exact ih.insert ⟨_, _, _, none⟩ (by simp)
  | addConstant _ hnext ih =>
    obtain ⟨extended, hextended, hnext⟩ := Result.bind_eq_ok_iff.mp hnext
    obtain rfl := Except.ok.inj hnext
    obtain rfl := addTensor_eq_ok hextended
    refine (ih.insert ⟨_, _, _, none⟩ (by simp)).insert ⟨_, _, _, some _⟩ ?_
    rintro data hdata
    obtain rfl := Option.some.inj hdata
    exact ⟨rfl, rfl⟩
  | addNode _ hnext ih =>
    obtain ⟨-, -, rfl⟩ := addNode_eq_ok_iff.mp hnext
    exact ih
  | refuseNode _ _ ih =>
    rw [tensors_afterRefusal]
    exact ih
  | assignRoles _ _ _ _ ih => exact ih

end Tensors

/-! ### Reading the record of a graph -/

section Records

/-- The graph without the data of its tensors. -/
def withoutData (graph : Graph) : Graph :=
  { graph with tensors := graph.tensors.mapValues TensorInfo.withoutData }

/-- What a document gives back of a graph. -/
def stored (graph : Graph) : Graph :=
  { graph with
    nodes := graph.nodes.map Node.stored
    tensors := graph.tensors.mapValues TensorInfo.stored }

/-- The graphs that the calls of their records build anew: names and attributes are as the calls
leave them. -/
structure Replayable (graph : Graph) : Prop where
  nodup : graph.tensors.keys.Nodup
  named : ∀ entry ∈ graph.tensors.entries, entry.2.name = entry.1
  registered : ∀ node ∈ graph.nodes, ∀ name, name ∈ node.inputs ∨ name ∈ node.outputs →
    graph.tensors.contains name = true
  bound : ∀ node ∈ graph.nodes, node.outputs ≠ []
  plain : ∀ node ∈ graph.nodes, node.attrs.plain = node.attrs
  remakable : ∀ node ∈ graph.nodes, node.attrs.areRemakable = true

/-- The attributes of a node that is built have no scalars outside records. -/
theorem Built.plain_attrs {graph : Graph} (hbuilt : Built graph) :
    ∀ node ∈ graph.nodes, node.attrs.plain = node.attrs :=
  hbuilt.forall_node fun _ _ _ _ _ attrs _ ↦ Attrs.plain_plain attrs

/-- The attributes of a node that is built have no tuples of a class outside records. -/
theorem Built.remakable_attrs {graph : Graph} (hbuilt : Built graph) :
    ∀ node ∈ graph.nodes, node.attrs.areRemakable = true :=
  hbuilt.forall_node fun _ _ _ _ _ attrs hnext ↦
    (Attrs.areRemakable_plain attrs).trans (addNode_eq_ok_iff.mp hnext).2.1

theorem Built.replayable {graph : Graph} (hbuilt : Built graph) : Replayable graph :=
  ⟨hbuilt.registered.nodup, hbuilt.registered.named, hbuilt.consistent.registered,
    hbuilt.outputs_ne_nil, hbuilt.plain_attrs, hbuilt.remakable_attrs⟩

theorem addRecordedTensor_toRecord {graph : Graph} {entry : String × TensorInfo}
    (hname : entry.2.name = entry.1) (hkeys : graph.consumerIds.keys = graph.tensors.keys)
    (hnew : entry.1 ∉ graph.tensors.keys) :
    graph.addRecordedTensor (entry.1, entry.2.toRecord) = .ok { graph with
      tensors := ⟨graph.tensors.entries ++ [(entry.1, entry.2.withoutData)]⟩
      consumerIds := ⟨graph.consumerIds.entries ++ [(entry.1, [])]⟩ } := by
  obtain ⟨key, name, shape, elementType, buffer⟩ := entry
  obtain rfl : name = key := hname
  show graph.addTensor name shape elementType = _
  have hcontains : graph.tensors.contains name = false := by
    rwa [← Bool.not_eq_true, OrderedMap.contains_eq_true_iff]
  rw [addTensor, hcontains, if_neg (by decide), OrderedMap.insert_of_not_mem hnew,
    OrderedMap.insert_of_not_mem (hkeys ▸ hnew)]
  rfl

/-- The tensors of a record are registered in order, without data and without readers. -/
theorem foldlM_addRecordedTensor {entries : List (String × TensorInfo)}
    (hnamed : ∀ entry ∈ entries, entry.2.name = entry.1) (graph : Graph)
    (hkeys : graph.consumerIds.keys = graph.tensors.keys)
    (hnodup : (graph.tensors.keys ++ entries.map Prod.fst).Nodup) :
    (entries.map fun entry ↦ (entry.1, entry.2.toRecord)).foldlM addRecordedTensor graph =
      .ok { graph with
        tensors := ⟨graph.tensors.entries ++
          entries.map fun entry ↦ (entry.1, entry.2.withoutData)⟩
        consumerIds := ⟨graph.consumerIds.entries ++ entries.map fun entry ↦ (entry.1, [])⟩ } := by
  induction entries generalizing graph with
  | nil => simp [pure, Except.pure]
  | cons entry rest ih =>
    have hnew : entry.1 ∉ graph.tensors.keys := fun hmem ↦
      (List.nodup_append.mp hnodup).2.2 _ hmem _ (List.mem_cons_self ..) rfl
    rw [List.map_cons, List.foldlM_cons,
      addRecordedTensor_toRecord (hnamed entry (List.mem_cons_self ..)) hkeys hnew, Result.ok_bind,
      ih (fun other hother ↦ hnamed other (List.mem_cons_of_mem _ hother))]
    · simp
    · simpa [OrderedMap.keys] using hkeys
    · simpa [OrderedMap.keys] using hnodup

theorem mapM_registeredName {graph : Graph} (missing : String → Complaint) {names : List String}
    (hregistered : ∀ name ∈ names, graph.tensors.contains name = true) :
    (names.map Attr.text).mapM (graph.registeredName missing) = .ok names := by
  rw [Result.mapM_eq_ok_iff, List.forall₂_map_left_iff, List.forall₂_same]
  intro name hname
  show (if graph.tensors.contains name then Except.ok name else complains (missing name)) = _
  rw [if_pos (hregistered name hname)]

theorem addRecordedNode_toRecord {graph : Graph} {node : Node} (hbound : node.outputs ≠ [])
    (hregistered : ∀ name, name ∈ node.inputs ∨ name ∈ node.outputs →
      graph.tensors.contains name = true) :
    graph.addRecordedNode node.toRecord =
      graph.addNode node.op node.inputs node.outputs node.attrs := by
  have hinputs := mapM_registeredName .unregisteredInput fun name hname ↦
    hregistered name (.inl hname)
  have houtputs := mapM_registeredName .unregisteredOutput fun name hname ↦
    hregistered name (.inr hname)
  have htrue : (Attr.list (node.outputs.map .text)).isTrue = true := by
    simpa [Attr.isTrue] using hbound
  show (do
    let op ← Op.ofAttr (.text node.op.name)
    if !(Attr.list (node.outputs.map Attr.text)).isTrue then
      complains (.noOutputs op)
    let inputs ← (node.inputs.map Attr.text).mapM (graph.registeredName .unregisteredInput)
    let outputs ← (node.outputs.map Attr.text).mapM (graph.registeredName .unregisteredOutput)
    let fields ← if (Attr.record node.attrs.entries).isTrue then .ok node.attrs else pure {}
    graph.addNode op inputs outputs fields) = _
  rw [Op.ofAttr_name, Result.ok_bind, htrue, hinputs, houtputs]
  simp only [Result.ok_bind]
  rw [if_neg (by decide)]
  split_ifs with hattrs
  · rfl
  · have hnone : node.attrs.entries = [] := by simpa [Attr.isTrue] using hattrs
    show graph.addNode node.op node.inputs node.outputs ⟨[]⟩ = _
    rw [← hnone]

/-- The nodes of a record are appended in order, each with the next identifier. -/
theorem foldlM_addRecordedNode {nodes : List Node} (graph : Graph)
    (hbound : ∀ node ∈ nodes, node.outputs ≠ [])
    (hregistered : ∀ node ∈ nodes, ∀ name, name ∈ node.inputs ∨ name ∈ node.outputs →
      graph.tensors.contains name = true)
    (hplain : ∀ node ∈ nodes, node.attrs.plain = node.attrs)
    (hremakable : ∀ node ∈ nodes, node.attrs.areRemakable = true) :
    (nodes.map Node.toRecord).foldlM addRecordedNode graph =
      .ok (nodes.foldl (fun graph node ↦ graph.appendNode { node with id := graph.nextId })
        graph) := by
  induction nodes generalizing graph with
  | nil => rfl
  | cons node rest ih =>
    simp only [List.forall_mem_cons] at hbound hregistered hplain hremakable
    have hnode : graph.nextNode node.op node.inputs node.outputs node.attrs =
        { node with id := graph.nextId } := by
      rw [nextNode, hplain.1]
    rw [List.map_cons, List.foldlM_cons, addRecordedNode_toRecord hbound.1 hregistered.1,
      addNode_eq_ok node.op hbound.1 hregistered.1 hremakable.1, hnode, Result.ok_bind]
    exact ih _ hbound.2 hregistered.2 hplain.2 hremakable.2

/-- Nodes that are appended to a graph that is numbered by places are numbered by their places. -/
theorem foldl_appendNode (nodes : List Node) (graph : Graph)
    (hlength : graph.nextId = graph.nodes.length) :
    nodes.foldl (fun graph node ↦ graph.appendNode { node with id := graph.nextId }) graph =
      let added := numberedFrom graph.nextId nodes
      { graph with
        nodes := graph.nodes ++ added
        producerIds := added.foldl (fun index node ↦
          appendAt node.id (OrderedMap.dedup node.outputs) index) graph.producerIds
        consumerIds := added.foldl (fun index node ↦ appendAt node.id node.inputs index)
          graph.consumerIds
        places := (added.zipIdx graph.nodes.length).foldl
          (fun index entry ↦ index.insert entry.1.id entry.2) graph.places
        nextId := graph.nextId + added.length } := by
  induction nodes generalizing graph with
  | nil => simp [numberedFrom]
  | cons node rest ih =>
    have hnext : (graph.appendNode { node with id := graph.nextId }).nextId =
        (graph.appendNode { node with id := graph.nextId }).nodes.length := by
      simp [appendNode, hlength]
    rw [List.foldl_cons, ih _ hnext]
    simp [appendNode, numberedFrom, hlength, Nat.add_assoc, Nat.add_comm 1]

/-- How a graph is read from its record: first its tensors, then its roles, then its nodes. -/
theorem ofRecord_eq (graph : Graph) (extra : List (String × Attr)) :
    ofRecord (.record (graph.recordFields ++ extra)) = (do
      let loaded ← List.foldlM addRecordedTensor { name := graph.name }
        (graph.tensors.entries.map fun entry : String × TensorInfo ↦ (entry.1, entry.2.toRecord))
      List.foldlM addRecordedNode { loaded with
        inputs := graph.inputs, constants := graph.constants, outputs := graph.outputs }
        (graph.nodes.map Node.toRecord)) := by
  show (do
    let loaded ← List.foldlM addRecordedTensor { name := graph.name }
      (graph.tensors.entries.map fun entry : String × TensorInfo ↦ (entry.1, entry.2.toRecord))
    let inputs ← (namesAttr graph.inputs).names
    let constants ← (namesAttr graph.constants).names
    let outputs ← (namesAttr graph.outputs).names
    List.foldlM addRecordedNode { loaded with inputs, constants, outputs }
      (graph.nodes.map Node.toRecord)) = _
  simp only [Result.ok_bind, Attr.names_namesAttr]

/-- A graph that can be built anew is read back from its record as it is, its data apart, with its
nodes numbered by their places. -/
theorem ofRecord_recordFields {graph : Graph} (hreplayable : Replayable graph)
    (extra : List (String × Attr)) :
    ofRecord (.record (graph.recordFields ++ extra)) = .ok graph.renumbered.withoutData := by
  have hregistered (node : Node) (hnode : node ∈ graph.nodes) (name : String)
      (hname : name ∈ node.inputs ∨ name ∈ node.outputs) :
      graph.withoutData.tensors.contains name = true := by
    rw [OrderedMap.contains_eq_true_iff, withoutData, OrderedMap.keys_mapValues,
      ← OrderedMap.contains_eq_true_iff]
    exact hreplayable.registered node hnode name hname
  have htensors := foldlM_addRecordedTensor hreplayable.named { name := graph.name } rfl
    hreplayable.nodup
  let start : Graph :=
    { name := graph.name
      tensors := graph.withoutData.tensors
      inputs := graph.inputs
      outputs := graph.outputs
      constants := graph.constants
      consumerIds := ⟨graph.tensors.entries.map fun entry ↦ (entry.1, [])⟩ }
  have hnodes := foldlM_addRecordedNode start hreplayable.bound hregistered hreplayable.plain
    hreplayable.remakable
  rw [foldl_appendNode graph.nodes start rfl] at hnodes
  rw [ofRecord_eq, htensors, Result.ok_bind]
  refine hnodes.trans (congrArg Except.ok ?_)
  simp [start, renumbered, withoutData, producerIndex, consumerIndex, placeIndex, OrderedMap.keys,
    OrderedMap.mapValues, Function.comp_def]

/-! ### Records that a document gives back -/

theorem recordFields_stored (graph : Graph) (extra : List (String × Attr)) :
    (Attr.record (graph.recordFields ++ extra)).stored =
      .record (graph.stored.recordFields ++ Attr.storedFields extra) := by
  simp [recordFields, stored, Node.toRecord, Node.stored, Attrs.stored, TensorInfo.toRecord,
    TensorInfo.stored, OrderedMap.mapValues, Attr.stored, Attr.storedFields_eq_map,
    Attr.storedItems_eq_map, namesAttr]

theorem numberedFrom_map_stored (next : Nat) (nodes : List Node) :
    numberedFrom next (nodes.map Node.stored) = (numberedFrom next nodes).map Node.stored := by
  induction nodes generalizing next with
  | nil => rfl
  | cons node rest ih => exact congrArg (_ :: ·) (ih (next + 1))

theorem Replayable.stored {graph : Graph} (hreplayable : Replayable graph) :
    Replayable graph.stored where
  nodup := by
    rw [Graph.stored, OrderedMap.keys_mapValues]
    exact hreplayable.nodup
  named := by
    rintro _ hmem
    obtain ⟨entry, hentry, rfl⟩ := List.mem_map.mp hmem
    exact hreplayable.named entry hentry
  registered := by
    rintro _ hmem name hname
    obtain ⟨node, hnode, rfl⟩ := List.mem_map.mp hmem
    rw [OrderedMap.contains_eq_true_iff, Graph.stored, OrderedMap.keys_mapValues,
      ← OrderedMap.contains_eq_true_iff]
    exact hreplayable.registered node hnode name hname
  bound := by
    rintro _ hmem
    obtain ⟨node, hnode, rfl⟩ := List.mem_map.mp hmem
    exact hreplayable.bound node hnode
  plain := by
    rintro _ hmem
    obtain ⟨node, -, rfl⟩ := List.mem_map.mp hmem
    exact Attrs.plain_stored node.attrs
  remakable := by
    rintro _ hmem
    obtain ⟨node, -, rfl⟩ := List.mem_map.mp hmem
    exact Attrs.areRemakable_stored node.attrs

/-- A graph that is built is read back from the record of it that a document gives back, with its
nodes numbered by their places. -/
theorem ofRecord_stored {graph : Graph} (hbuilt : Built graph) (extra : List (String × Attr)) :
    ofRecord (Attr.record (graph.recordFields ++ extra)).stored = .ok graph.stored.renumbered := by
  rw [recordFields_stored, ofRecord_recordFields hbuilt.replayable.stored]
  simp [withoutData, renumbered, stored, OrderedMap.mapValues, TensorInfo.withoutData,
    TensorInfo.stored]

end Records

end Graph

end Handover
