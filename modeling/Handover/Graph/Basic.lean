import Handover.Error
import Handover.Tensor.Layout

/-!
# Graphs

A graph is a sequence of nodes over named tensors (`Graph`). The order of the nodes is the order of
evaluation, and the place of a node in it is its position. A node reads its inputs, which may repeat
a name, and binds its outputs; a later node may bind a name again. Inputs and constants are tensors
that no node produces.

Besides the nodes the graph keeps three indices: for each tensor the nodes that produce it and the
nodes that read it, and for each node its place in the sequence. Building a graph keeps them in step
with the nodes; replacing the nodes directly does not. A node has the next identifier that no call
took before; the identifier of a call that is refused for its attributes (`Graph.afterRefusal`) is
lost.
-/

set_option autoImplicit false
set_option relaxedAutoImplicit false

namespace Handover

/-- What is known of a tensor: its shape as it was given, the name of its element type and, for a
constant whose data is at hand, the data. -/
structure TensorInfo where
  name : String
  shape : List Attr
  elementType : String := "float32"
  buffer : Option Strided := none

/-- One operation of the sequence. -/
structure Node where
  id : Nat
  op : Op
  inputs : List String
  outputs : List String
  attrs : Attrs := {}

/-- A sequence of operations over named tensors. -/
structure Graph where
  name : String := "graph"
  nodes : List Node := []
  tensors : OrderedMap String TensorInfo := {}
  inputs : List String := []
  outputs : List String := []
  constants : List String := []
  producerIds : OrderedMap String (List Nat) := {}
  consumerIds : OrderedMap String (List Nat) := {}
  places : OrderedMap Nat Nat := {}
  nextId : Nat := 0

instance : Inhabited Node := ⟨{ id := 0, op := .relu, inputs := [], outputs := [] }⟩

instance : Inhabited Graph := ⟨{}⟩

/-- The item at an index, counted from the end when it is negative. -/
def itemAt? {α : Type} (items : List α) (index : Int) : Option α :=
  let shifted := if index < 0 then index + (items.length : Int) else index
  if shifted < 0 then none else items[shifted.toNat]?

/-- The item at an index, or the error that there is none. -/
def itemAt {α : Type} (items : List α) (index : Int) : Result α :=
  match itemAt? items index with
  | some item => .ok item
  | none => fails .pastEnd

/-- The attribute of a given name, or the error that it is missing. -/
def Attrs.get (attrs : Attrs) (name : String) : Result Attr :=
  match attrs.find? name with
  | some value => .ok value
  | none => .error (.noName name)

/-- The first output of a node. -/
def Node.output (node : Node) : Result String := itemAt node.outputs 0

namespace Graph

variable (graph : Graph)

/-- The tensor of a given name, or the error that there is none. -/
def tensor (name : String) : Result TensorInfo :=
  match graph.tensors.find? name with
  | some info => .ok info
  | none => .error (.noName name)

/-- The place of the node with a given identifier. -/
def indexOf (id : Int) : Result Nat :=
  match if id < 0 then none else graph.places.find? id.toNat with
  | some place => .ok place
  | none => .error (.noEntry (.int id))

/-- The node with a given identifier. -/
def node (id : Int) : Result Node := do
  itemAt graph.nodes (← graph.indexOf id)

/-- The nodes that bind a tensor, in order. -/
def producers (name : String) : Result (List Node) :=
  ((graph.producerIds.find? name).getD []).mapM fun id : Nat ↦ graph.node id

/-- The nodes that read a tensor, each once, in order. -/
def consumers (name : String) : Result (List Node) :=
  (OrderedMap.dedup ((graph.consumerIds.find? name).getD [])).mapM fun id : Nat ↦ graph.node id

/-! ### Building -/

/-- The graph with another tensor, which no node reads yet. -/
def addTensor (name : String) (shape : List Attr) (elementType : String) : Result Graph :=
  if graph.tensors.contains name then complains (.duplicateTensor name)
  else .ok { graph with
    tensors := graph.tensors.insert name { name, shape, elementType }
    consumerIds := graph.consumerIds.insert name [] }

/-- The graph with another tensor that its caller passes in. -/
def addInput (name : String) (shape : List Attr) (elementType : String) : Result Graph := do
  let extended ← graph.addTensor name shape elementType
  return { extended with inputs := extended.inputs ++ [name] }

/-- The graph with another tensor that holds given data, which stands in memory as it is given. -/
def addConstant (name : String) (data : Strided) : Result Graph := do
  let shape := data.tensor.shape.map fun length : Nat ↦ Attr.int length
  let elementType := data.typeName
  let extended ← graph.addTensor name shape elementType
  return { extended with
    tensors := extended.tensors.insert name { name, shape, elementType, buffer := some data }
    constants := extended.constants ++ [name] }

/-- The lists of a map of lists with an item at the end of the list of each key. -/
def appendAt (item : Nat) (keys : List String) (map : OrderedMap String (List Nat)) :
    OrderedMap String (List Nat) :=
  keys.foldl (fun map key ↦ map.push key item) map

/-- Refuses a node that binds nothing, and one with a name that is not registered. -/
def requireNames (op : Op) (inputs outputs : List String) : Result Unit := do
  if outputs.isEmpty then
    complains (.noOutputs op)
  if let some missing := inputs.find? fun name ↦ !graph.tensors.contains name then
    complains (.unregisteredInput missing)
  if let some missing := outputs.find? fun name ↦ !graph.tensors.contains name then
    complains (.unregisteredOutput missing)

/-- The node that the next call of `addNode` appends. -/
def nextNode (op : Op) (inputs outputs : List String) (attrs : Attrs) : Node :=
  { id := graph.nextId, op, inputs, outputs, attrs := attrs.plain }

/-- The graph with a node that has the next identifier at the end of the sequence. -/
def appendNode (node : Node) : Graph :=
  { graph with
    nodes := graph.nodes ++ [node]
    producerIds := appendAt node.id (OrderedMap.dedup node.outputs) graph.producerIds
    consumerIds := appendAt node.id node.inputs graph.consumerIds
    places := graph.places.insert node.id graph.nodes.length
    nextId := graph.nextId + 1 }

/-- The graph with another node at the end of the sequence. Its attributes are stored as plain
values, for which they are made anew. -/
def addNode (op : Op) (inputs outputs : List String) (attrs : Attrs) : Result Graph := do
  graph.requireNames op inputs outputs
  if attrs.areRemakable then return graph.appendNode (graph.nextNode op inputs outputs attrs)
  else fails .wrongKind

/-- The graph that a call of `addNode` leaves when it is refused. An identifier is taken as soon as
the names are accepted, so a call that is refused for its attributes loses it. -/
def afterRefusal (op : Op) (inputs outputs : List String) : Graph :=
  match graph.requireNames op inputs outputs with
  | .error _ => graph
  | .ok _ => { graph with nextId := graph.nextId + 1 }

/-! ### Direct changes -/

/-- The graph with the node at an index changed, wherever it stands in the sequence. -/
def changeNode (index : Int) (change : Node → Node) : Result Graph := do
  let chosen ← itemAt graph.nodes index
  return { graph with
    nodes := graph.nodes.map fun node ↦ if node.id = chosen.id then change node else node }

/-- The graph with what is known of a tensor changed. -/
def changeTensor (name : String) (change : TensorInfo → TensorInfo) : Result Graph := do
  let info ← graph.tensor name
  return { graph with tensors := graph.tensors.insert name (change info) }

/-- The graph without a tensor. -/
def removeTensor (name : String) : Result Graph := do
  let _ ← graph.tensor name
  return { graph with tensors := graph.tensors.erase name }

/-- The graph with the nodes at some indices as its sequence; the indices of the graph stay as they
are. -/
def reorder (order : List Int) : Result Graph := do
  let nodes ← order.mapM fun index ↦ itemAt graph.nodes index
  return { graph with nodes := nodes }

end Graph

end Handover
