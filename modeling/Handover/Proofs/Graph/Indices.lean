import Handover.Proofs.Graph.Building
import Mathlib.Data.List.Induction
import Mathlib.Data.List.Sort

/-!
# The indices of a graph

The indices of a graph that is built are those that its tensors and its nodes give in order,
whatever the order of the calls was (`Graph.Indexed`, `Built.indexed`): a tensor is entered without
readers when it is registered, and a node is put at the end of the lists of the names that it binds
and reads. So two graphs that are built with the same tensors and the same nodes have the same
indices, and the readers of a name are the nodes that read it, each once (`Consistent.consumers`).
A graph of which no call lost an identifier is numbered by places (`Consistent.numbered`), and to
number it anew changes nothing (`Numbered.renumbered_eq`).
-/

set_option autoImplicit false
set_option relaxedAutoImplicit false

namespace Handover

namespace Graph

variable {index : OrderedMap String (List Nat)} {keys : List String}

theorem keys_appendAt (item : Nat) (hkeys : ∀ key ∈ keys, key ∈ index.keys) :
    (appendAt item keys index).keys = index.keys := by
  induction keys generalizing index with
  | nil => rfl
  | cons key rest ih =>
    obtain ⟨hkey, hrest⟩ := List.forall_mem_cons.mp hkeys
    have hsame := OrderedMap.keys_push_of_mem hkey item
    show (appendAt item rest (index.push key item)).keys = _
    rw [ih (fun other hother ↦ hsame ▸ hrest other hother), hsame]

/-- Entries behind those of an index stay as they are. -/
theorem appendAt_append (item : Nat) (hkeys : ∀ key ∈ keys, key ∈ index.keys)
    (tail : List (String × List Nat)) :
    appendAt item keys ⟨index.entries ++ tail⟩ = ⟨(appendAt item keys index).entries ++ tail⟩ := by
  induction keys generalizing index with
  | nil => rfl
  | cons key rest ih =>
    obtain ⟨hkey, hrest⟩ := List.forall_mem_cons.mp hkeys
    have hsame := OrderedMap.keys_push_of_mem hkey item
    show appendAt item rest (OrderedMap.push _ _ _) = _
    rw [OrderedMap.push_append_of_mem hkey, ih (fun other hother ↦ hsame ▸ hrest other hother)]
    rfl

/-! ### The indices that nodes give -/

/-- The nodes that bind each name, for some nodes. -/
def producerIndex (nodes : List Node) : OrderedMap String (List Nat) :=
  nodes.foldl (fun index node ↦ appendAt node.id (OrderedMap.dedup node.outputs) index) {}

/-- The nodes that read each name, for some registered names and some nodes. -/
def consumerIndex (names : List String) (nodes : List Node) : OrderedMap String (List Nat) :=
  nodes.foldl (fun index node ↦ appendAt node.id node.inputs index)
    ⟨names.map fun name ↦ (name, [])⟩

/-- The place of each of some nodes. -/
def placeIndex (nodes : List Node) : OrderedMap Nat Nat :=
  nodes.zipIdx.foldl (fun index entry ↦ index.insert entry.1.id entry.2) {}

/-- The indices of a graph are those that its tensors and its nodes give. -/
structure Indexed (graph : Graph) : Prop where
  producerIds : graph.producerIds = producerIndex graph.nodes
  consumerIds : graph.consumerIds = consumerIndex graph.tensors.keys graph.nodes
  places : graph.places = placeIndex graph.nodes

section Indices

variable {names : List String} {nodes : List Node}

theorem keys_foldl_appendAt
    (hinputs : ∀ node ∈ nodes, ∀ name ∈ node.inputs, name ∈ index.keys) :
    (nodes.foldl (fun index node ↦ appendAt node.id node.inputs index) index).keys =
      index.keys := by
  induction nodes generalizing index with
  | nil => rfl
  | cons node rest ih =>
    obtain ⟨hnode, hrest⟩ := List.forall_mem_cons.mp hinputs
    have hsame := keys_appendAt node.id hnode
    rw [List.foldl_cons, ih (fun other hother ↦ hsame ▸ hrest other hother), hsame]

theorem foldl_appendAt_append
    (hinputs : ∀ node ∈ nodes, ∀ name ∈ node.inputs, name ∈ index.keys)
    (tail : List (String × List Nat)) :
    nodes.foldl (fun index node ↦ appendAt node.id node.inputs index) ⟨index.entries ++ tail⟩ =
      ⟨(nodes.foldl (fun index node ↦ appendAt node.id node.inputs index) index).entries ++
        tail⟩ := by
  induction nodes generalizing index with
  | nil => rfl
  | cons node rest ih =>
    obtain ⟨hnode, hrest⟩ := List.forall_mem_cons.mp hinputs
    have hsame := keys_appendAt node.id hnode
    rw [List.foldl_cons, appendAt_append node.id hnode,
      ih (fun other hother ↦ hsame ▸ hrest other hother), List.foldl_cons]

/-- A name that is registered after some nodes has no readers among them. -/
theorem consumerIndex_append {name : String} (hnew : name ∉ names)
    (hinputs : ∀ node ∈ nodes, ∀ other ∈ node.inputs, other ∈ names) :
    consumerIndex (names ++ [name]) nodes = (consumerIndex names nodes).insert name [] := by
  have hkeys : (OrderedMap.mk (names.map fun name ↦ (name, ([] : List Nat)))).keys = names := by
    simp [OrderedMap.keys, Function.comp_def]
  have hinputs : ∀ node ∈ nodes, ∀ other ∈ node.inputs,
      other ∈ (OrderedMap.mk (names.map fun name ↦ (name, ([] : List Nat)))).keys := by rwa [hkeys]
  have habsent : name ∉ (consumerIndex names nodes).keys := by
    rwa [consumerIndex, keys_foldl_appendAt hinputs, hkeys]
  rw [OrderedMap.insert_of_not_mem habsent, consumerIndex, List.map_append]
  exact foldl_appendAt_append hinputs _

end Indices

/-! ### Graphs that are built -/

section Built

variable {graph next : Graph}

theorem Indexed.addTensor (hindexed : Indexed graph) (hconsistent : Consistent graph)
    {name : String} {shape : List Attr} {elementType : String}
    (hnext : graph.addTensor name shape elementType = .ok next) : Indexed next := by
  have hnew : name ∉ graph.tensors.keys := by
    rw [← OrderedMap.contains_eq_true_iff]
    intro hcontains
    rw [Graph.addTensor, if_pos hcontains] at hnext
    cases hnext
  have hinputs (node : Node) (hnode : node ∈ graph.nodes) (other : String)
      (hother : other ∈ node.inputs) : other ∈ graph.tensors.keys :=
    OrderedMap.contains_eq_true_iff.mp (hconsistent.registered node hnode other (.inl hother))
  obtain rfl := addTensor_eq_ok hnext
  refine ⟨hindexed.producerIds, ?_, hindexed.places⟩
  show graph.consumerIds.insert name [] =
    consumerIndex (graph.tensors.insert name _).keys graph.nodes
  rw [hindexed.consumerIds, OrderedMap.insert_of_not_mem hnew, ← consumerIndex_append hnew hinputs]
  simp [OrderedMap.keys]

theorem Indexed.addNode (hindexed : Indexed graph) {op : Op} {inputs outputs : List String}
    {attrs : Attrs} (hnext : graph.addNode op inputs outputs attrs = .ok next) : Indexed next := by
  obtain ⟨-, -, rfl⟩ := addNode_eq_ok_iff.mp hnext
  refine ⟨?_, ?_, ?_⟩
  · show appendAt _ _ graph.producerIds = producerIndex (graph.nodes ++ [_])
    rw [hindexed.producerIds, producerIndex, producerIndex, List.foldl_append]
    rfl
  · show appendAt _ _ graph.consumerIds = consumerIndex graph.tensors.keys (graph.nodes ++ [_])
    rw [hindexed.consumerIds, consumerIndex, consumerIndex, List.foldl_append]
    rfl
  · show graph.places.insert graph.nextId graph.nodes.length = placeIndex (graph.nodes ++ [_])
    rw [hindexed.places, placeIndex, placeIndex, List.zipIdx_append, List.foldl_append,
      Nat.zero_add]
    rfl

theorem Indexed.of_eq (hindexed : Indexed graph) (hnodes : next.nodes = graph.nodes)
    (hkeys : next.tensors.keys = graph.tensors.keys)
    (hproducers : next.producerIds = graph.producerIds)
    (hconsumers : next.consumerIds = graph.consumerIds) (hplaces : next.places = graph.places) :
    Indexed next := by
  refine ⟨?_, ?_, ?_⟩
  · rw [hproducers, hnodes, hindexed.producerIds]
  · rw [hconsumers, hnodes, hkeys, hindexed.consumerIds]
  · rw [hplaces, hnodes, hindexed.places]

/-- The indices of a graph that is built are those that its tensors and its nodes give. -/
theorem Built.indexed (hbuilt : Built graph) : Indexed graph := by
  induction hbuilt with
  | empty name => exact ⟨rfl, rfl, rfl⟩
  | addTensor hbuilt hnext ih => exact ih.addTensor hbuilt.consistent hnext
  | addInput hbuilt hnext ih =>
    obtain ⟨extended, hextended, hnext⟩ := Result.bind_eq_ok_iff.mp hnext
    obtain rfl := Except.ok.inj hnext
    exact (ih.addTensor hbuilt.consistent hextended).of_eq rfl rfl rfl rfl rfl
  | addConstant hbuilt hnext ih =>
    obtain ⟨extended, hextended, hnext⟩ := Result.bind_eq_ok_iff.mp hnext
    obtain rfl := Except.ok.inj hnext
    refine (ih.addTensor hbuilt.consistent hextended).of_eq rfl ?_ rfl rfl rfl
    obtain rfl := addTensor_eq_ok hextended
    exact OrderedMap.keys_insert_of_mem
      (OrderedMap.contains_eq_true_iff.mp ((OrderedMap.contains_insert ..).mpr (.inl rfl))) _
  | addNode _ hnext ih => exact ih.addNode hnext
  | refuseNode _ _ ih => exact afterRefusal_of _ _ _ ih (ih.of_eq rfl rfl rfl rfl rfl)
  | assignRoles _ _ _ _ ih => exact ih.of_eq rfl rfl rfl rfl rfl

end Built

/-! ### Numbers of nodes -/

section Numbers

/-- Some nodes numbered in order, from a number on. -/
def numberedFrom : Nat → List Node → List Node
  | _, [] => []
  | next, node :: rest => { node with id := next } :: numberedFrom (next + 1) rest

/-- The graph with its nodes numbered by their places. -/
def renumbered (graph : Graph) : Graph :=
  let nodes := numberedFrom 0 graph.nodes
  { graph with
    nodes := nodes
    producerIds := producerIndex nodes
    consumerIds := consumerIndex graph.tensors.keys nodes
    places := placeIndex nodes
    nextId := nodes.length }

/-- The nodes of a graph are numbered by their places, and the next identifier is behind them. -/
structure Numbered (graph : Graph) : Prop where
  ids : graph.nodes.map Node.id = List.range graph.nodes.length
  nextId : graph.nextId = graph.nodes.length

/-- Numbers that go up and are below their count are all numbers below it. -/
theorem eq_range_of_pairwise {numbers : List Nat} (hup : numbers.Pairwise (· < ·))
    (hbelow : ∀ number ∈ numbers, number < numbers.length) :
    numbers = List.range numbers.length := by
  have hsub : numbers ⊆ List.range numbers.length := fun number hnumber ↦
    List.mem_range.mpr (hbelow number hnumber)
  have hperm : numbers.Perm (List.range numbers.length) :=
    (List.subperm_of_subset (hup.imp Nat.ne_of_lt) hsub).perm_of_length_le
      (List.length_range ..).le
  exact hperm.eq_of_pairwise (fun _ _ _ _ hle hge ↦ absurd hle (Nat.lt_asymm hge)) hup
    List.pairwise_lt_range

/-- The nodes are numbered by their places if no identifier was taken for anything but a node. -/
theorem Consistent.numbered {graph : Graph} (hconsistent : Consistent graph)
    (hnext : graph.nextId = graph.nodes.length) : Numbered graph := by
  have hbelow : ∀ id ∈ graph.nodes.map Node.id, id < (graph.nodes.map Node.id).length := by
    rw [List.forall_mem_map, List.length_map, ← hnext]
    exact hconsistent.taken
  have hids := eq_range_of_pairwise hconsistent.ids hbelow
  rw [List.length_map] at hids
  exact ⟨hids, hnext⟩

theorem map_id_numberedFrom (next : Nat) (nodes : List Node) :
    (numberedFrom next nodes).map Node.id = List.range' next nodes.length := by
  induction nodes generalizing next with
  | nil => rfl
  | cons node rest ih => exact congrArg (next :: ·) (ih (next + 1))

/-- Numbers from one on are no greater than numbers that go up from there. -/
theorem exists_of_mem_numberedFrom {next : Nat} {nodes : List Node}
    (hids : (nodes.map Node.id).Pairwise (· < ·)) (hnext : ∀ node ∈ nodes, next ≤ node.id)
    {numbered : Node} (hnumbered : numbered ∈ numberedFrom next nodes) :
    ∃ node ∈ nodes, numbered.id ≤ node.id ∧ numbered = { node with id := numbered.id } := by
  induction nodes generalizing next with
  | nil => cases hnumbered
  | cons node rest ih =>
    rw [List.map_cons, List.pairwise_cons, List.forall_mem_map] at hids
    obtain ⟨hnode, -⟩ := List.forall_mem_cons.mp hnext
    rcases List.mem_cons.mp hnumbered with rfl | hnumbered
    · exact ⟨node, List.mem_cons_self .., hnode, rfl⟩
    · obtain ⟨other, hother, hrest⟩ := ih hids.2
        (fun other hother ↦ Nat.succ_le_of_lt (Nat.lt_of_le_of_lt hnode (hids.1 other hother)))
        hnumbered
      exact ⟨other, List.mem_cons_of_mem _ hother, hrest⟩

/-- Nodes that have the numbers already are numbered as they are. -/
theorem numberedFrom_eq_self_iff {next : Nat} {nodes : List Node} :
    numberedFrom next nodes = nodes ↔ nodes.map Node.id = List.range' next nodes.length := by
  refine ⟨fun hsame ↦ ?_, fun hids ↦ ?_⟩
  · rw [← map_id_numberedFrom, hsame]
  · induction nodes generalizing next with
    | nil => rfl
    | cons node rest ih =>
      rw [List.map_cons, List.length_cons, List.range'_succ] at hids
      obtain ⟨rfl, hrest⟩ := List.cons.inj hids
      exact congrArg (node :: ·) (ih hrest)

/-- A graph whose nodes are numbered by their places is numbered as it is. -/
theorem Numbered.renumbered_eq {graph : Graph} (hnumbered : Numbered graph)
    (hindexed : Indexed graph) : graph.renumbered = graph := by
  have hnodes : numberedFrom 0 graph.nodes = graph.nodes := by
    rw [numberedFrom_eq_self_iff, hnumbered.ids, List.range_eq_range']
  unfold renumbered
  rw [hnodes]
  dsimp only
  rw [← hindexed.producerIds, ← hindexed.consumerIds, ← hindexed.places, ← hnumbered.nextId]

end Numbers

/-! ### Readers -/

section Readers

/-- The identifiers under a key after an item was put at the end of the lists of some keys, once for
every time that the key is listed. -/
theorem getD_find?_appendAt_count (item : Nat) (keys : List String)
    (map : OrderedMap String (List Nat)) (key : String) :
    ((appendAt item keys map).find? key).getD [] =
      (map.find? key).getD [] ++ List.replicate (keys.count key) item := by
  induction keys generalizing map with
  | nil => simp [appendAt]
  | cons head rest ih =>
    show ((appendAt item rest (map.push head item)).find? key).getD [] = _
    rw [ih, OrderedMap.getD_find?_push, List.append_assoc]
    by_cases hkey : key = head
    · rw [if_pos hkey, hkey, List.count_cons_self, List.replicate_succ, List.singleton_append]
    · rw [if_neg hkey, List.count_cons_of_ne (Ne.symm hkey), List.nil_append]

theorem getD_find?_foldl_appendAt (nodes : List Node) (index : OrderedMap String (List Nat))
    (name : String) :
    ((nodes.foldl (fun index node ↦ appendAt node.id node.inputs index) index).find? name).getD [] =
      (index.find? name).getD [] ++
        nodes.flatMap fun node ↦ List.replicate (node.inputs.count name) node.id := by
  induction nodes generalizing index with
  | nil => simp
  | cons node rest ih =>
    rw [List.foldl_cons, ih, getD_find?_appendAt_count, List.flatMap_cons, List.append_assoc]

theorem getD_find?_consumerIndex (names : List String) (nodes : List Node) (name : String) :
    ((consumerIndex names nodes).find? name).getD [] =
      nodes.flatMap fun node ↦ List.replicate (node.inputs.count name) node.id := by
  have hempty :
      ((OrderedMap.mk (names.map fun name ↦ (name, ([] : List Nat)))).find? name).getD [] = [] := by
    cases hfound : (OrderedMap.mk (names.map fun name ↦ (name, ([] : List Nat)))).find? name with
    | none => rfl
    | some ids =>
      obtain ⟨other, -, heq⟩ := List.mem_map.mp (OrderedMap.mem_entries_of_find? hfound)
      exact (congrArg Prod.snd heq).symm
  rw [consumerIndex, getD_find?_foldl_appendAt, hempty, List.nil_append]

end Readers

section Lookups

variable {graph : Graph}

/-- Repeated reads of a node count once. -/
theorem dedup_flatMap_replicate {nodes : List Node} (hnodup : (nodes.map Node.id).Nodup)
    (name : String) :
    OrderedMap.dedup (nodes.flatMap fun node ↦ List.replicate (node.inputs.count name) node.id) =
      (nodes.filter fun node ↦ node.inputs.contains name).map Node.id := by
  induction nodes using List.reverseRecOn with
  | nil => rfl
  | append_singleton nodes node ih =>
    rw [List.map_append, List.nodup_append] at hnodup
    have hnew : node.id ∉
        nodes.flatMap fun node ↦ List.replicate (node.inputs.count name) node.id := by
      intro hmem
      obtain ⟨other, hother, hid⟩ := List.mem_flatMap.mp hmem
      exact hnodup.2.2 other.id (List.mem_map_of_mem hother) node.id (List.mem_singleton_self _)
        (List.eq_of_mem_replicate hid).symm
    rw [List.flatMap_append, List.flatMap_singleton, OrderedMap.dedup_append_replicate hnew,
      ih hnodup.1, List.filter_append, List.map_append]
    by_cases hreads : name ∈ node.inputs
    · rw [if_neg (Nat.ne_zero_of_lt (List.count_pos_iff.mpr hreads))]
      simp [hreads]
    · rw [if_pos (List.count_eq_zero_of_not_mem hreads)]
      simp [hreads]

/-- The nodes that read a name, each once. -/
theorem Consistent.consumers (hconsistent : Consistent graph) (hindexed : Indexed graph)
    (name : String) :
    graph.consumers name = .ok (graph.nodes.filter fun node ↦ node.inputs.contains name) := by
  have hnodup : (graph.nodes.map Node.id).Nodup := hconsistent.ids.imp Nat.ne_of_lt
  unfold Graph.consumers
  rw [hindexed.consumerIds, getD_find?_consumerIndex, dedup_flatMap_replicate hnodup,
    List.mapM_map, Result.mapM_eq_ok_iff, List.forall₂_same]
  intro node hnode
  obtain ⟨index, hindex⟩ := List.mem_iff_getElem?.mp (List.mem_of_mem_filter hnode)
  exact hconsistent.node hindex

end Lookups

end Graph

end Handover
