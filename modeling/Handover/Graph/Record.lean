import Handover.Attr.Literal
import Handover.Graph.Basic

/-!
# Graphs as records

A graph without its weight data as a record (`Graph.toRecord`) and back (`Graph.ofRecord`). Reading
a record builds the graph anew: tensors first, then the three lists of roles as they stand, then the
nodes, whose identifiers are assigned again in order.
-/

set_option autoImplicit false
set_option relaxedAutoImplicit false

namespace Handover

/-- A list of names as a value. -/
def namesAttr (names : List String) : Attr := .list (names.map .text)

/-- A node as a record. -/
def Node.toRecord (node : Node) : Attr :=
  .record [("id", .int node.id), ("op", .text node.op.name), ("inputs", namesAttr node.inputs),
    ("outputs", namesAttr node.outputs), ("attrs", .record node.attrs.entries)]

/-- What is known of a tensor, its data apart, as a record. -/
def TensorInfo.toRecord (info : TensorInfo) : Attr :=
  .record [("shape", .list info.shape), ("dtype", .text info.elementType)]

/-- The fields of the record of a graph. -/
def Graph.recordFields (graph : Graph) : List (String × Attr) :=
  [("name", .text graph.name),
    ("nodes", .list (graph.nodes.map Node.toRecord)),
    ("tensors", .record (graph.tensors.entries.map fun entry ↦ (entry.1, entry.2.toRecord))),
    ("inputs", namesAttr graph.inputs),
    ("constants", namesAttr graph.constants),
    ("outputs", namesAttr graph.outputs)]

/-- A graph without its weight data as a record. -/
def Graph.toRecord (graph : Graph) : Attr := .record graph.recordFields

/-! ### Reading values of a record -/

namespace Attr

/-- The fields of a record. -/
def fields (value : Attr) : Result (OrderedMap String Attr) :=
  match value with
  | record fields => .ok ⟨fields⟩
  | _ => fails .noMember

/-- The value at a key of a record. -/
def entry (value : Attr) (key : String) : Result Attr :=
  match value with
  | record fields =>
    match (OrderedMap.mk fields).find? key with
    | some found => .ok found
    | none => .error (.noName key)
  | _ => fails .wrongKind

/-- The items of a collection: the characters of a text and the keys of a record are items too. -/
def elements (value : Attr) : Result (List Attr) :=
  match value with
  | list items => .ok items
  | tuple items _ => .ok items
  | text content => .ok (content.toList.map fun c ↦ text (String.ofList [c]))
  | record fields => .ok (fields.map fun field ↦ text field.1)
  | _ => fails .wrongKind

/-- The text of a value. -/
def asText (value : Attr) : Result String :=
  match value with
  | text content => .ok content
  | _ => fails .wrongKind

/-- The integer of a value. -/
def asInteger (value : Attr) : Result Int :=
  match value with
  | int value => .ok value
  | bool value => .ok (if value then 1 else 0)
  | _ => fails .wrongKind

/-- The names in a collection. -/
def names (value : Attr) : Result (List String) := do
  (← value.elements).mapM asText

end Attr

/-- The operator that a value names. -/
def Op.ofAttr (value : Attr) : Result Op :=
  match value with
  | .text name =>
    match Op.ofName? name with
    | some op => .ok op
    | none => .error (.noName name)
  | .list _ | .record _ => fails .wrongKind
  | value => .error (.noEntry value)

namespace Graph

/-- The registered name that a value is. A collection cannot be looked up, and nothing but a text is
registered. -/
def registeredName (graph : Graph) (missing : String → Complaint) (value : Attr) :
    Result String :=
  match value with
  | .list _ | .record _ => fails .wrongKind
  | .text name => if graph.tensors.contains name then .ok name else complains (missing name)
  | value => do
    let shown ← value.display
    complains (missing shown)

/-- The graph with the node of a record at the end of its sequence. One output may be given as a
text. -/
def addRecordedNode (graph : Graph) (record : Attr) : Result Graph := do
  let op ← Op.ofAttr (← record.entry "op")
  let inputs ← record.entry "inputs"
  let outputs ← record.entry "outputs"
  let attrs := ((← record.fields).find? "attrs").getD .null
  let outputItems : Attr :=
    match outputs with
    | .text name => .list [.text name]
    | value => value
  if !outputItems.isTrue then
    complains (.noOutputs op)
  let inputNames ← (← inputs.elements).mapM (graph.registeredName .unregisteredInput)
  let outputNames ← (← outputItems.elements).mapM (graph.registeredName .unregisteredOutput)
  let fields ← if attrs.isTrue then attrs.fields else pure {}
  graph.addNode op inputNames outputNames fields

/-- The graph with the tensor of an entry of a record. -/
def addRecordedTensor (graph : Graph) (entry : String × Attr) : Result Graph := do
  let shape ← (← entry.2.entry "shape").elements
  let elementType ← (← entry.2.entry "dtype").asText
  graph.addTensor entry.1 shape elementType

/-- The graph of a record. -/
def ofRecord (record : Attr) : Result Graph := do
  let fields ← record.fields
  let name ← ((fields.find? "name").getD (.text "graph")).asText
  let tensors ← (← record.entry "tensors").fields
  let graph ← tensors.entries.foldlM addRecordedTensor { name }
  let inputs ← (← record.entry "inputs").names
  let constants ← (← record.entry "constants").names
  let outputs ← (← record.entry "outputs").names
  let nodes ← (← record.entry "nodes").elements
  nodes.foldlM addRecordedNode { graph with inputs, constants, outputs }

end Graph

end Handover
