import Handover.Evaluation.Operators

/-!
# Evaluation of graphs

Running a graph on given tensors (`evaluate`): its inputs and constants are bound first, then each
node in order binds its outputs, and a later binding of a name replaces an earlier one. A node with
one output binds the whole result of its operator; with several, each output gets one part, and what
is left over on either side is dropped.
-/

set_option autoImplicit false
set_option relaxedAutoImplicit false

namespace Handover

/-- What names stand for at a point of an evaluation. -/
abbrev Environment : Type := OrderedMap String Value

namespace Environment

/-- The value of a name, or the error that it is not bound. -/
def value (environment : Environment) (name : String) : Result Value :=
  match environment.find? name with
  | some value => .ok value
  | none => .error (.noName name)

/-- The environment with the outputs of a node bound to the result of its operator. -/
def bind (environment : Environment) (outputs : List String) (result : Value) :
    Result Environment :=
  match outputs with
  | [output] => .ok (environment.insert output result)
  | outputs => do
    let parts ← result.parts
    return (outputs.zip parts).foldl (fun bound entry ↦ bound.insert entry.1 entry.2) environment

theorem bind_of_length_ne_one {outputs : List String} (hlength : outputs.length ≠ 1)
    (environment : Environment) (result : Value) :
    environment.bind outputs result = do
      let parts ← result.parts
      return (outputs.zip parts).foldl (fun bound entry ↦ bound.insert entry.1 entry.2)
        environment := by
  unfold bind
  split
  · exact absurd rfl hlength
  · rfl

/-- The environment with an input of a graph bound to the tensor that is passed for it. -/
def bindInput (inputs : OrderedMap String Strided) (environment : Environment) (name : String) :
    Result Environment :=
  match inputs.find? name with
  | some tensor => .ok (environment.insert name (.array tensor))
  | none => complains (.missingInput name)

/-- The environment with a constant of a graph bound to its data. -/
def bindConstant (graph : Graph) (environment : Environment) (name : String) :
    Result Environment := do
  match (← graph.tensor name).buffer with
  | some data => return environment.insert name (.array data)
  | none => complains (.noData name)

/-- The environment after a node. -/
def step (ops : List Op) (environment : Environment) (node : Node) : Result Environment := do
  if !ops.contains node.op then
    complains (.undefinedOp node.op)
  let operands ← node.inputs.mapM environment.value
  environment.bind node.outputs (← node.op.evaluate operands node.attrs)

end Environment

/-- The environment before the first node of a graph. -/
def initialEnvironment (graph : Graph) (inputs : OrderedMap String Strided) :
    Result Environment := do
  let bound ← graph.inputs.foldlM (Environment.bindInput inputs) {}
  graph.constants.foldlM (Environment.bindConstant graph) bound

/-- The values of the outputs of a graph on given tensors, with given operators defined. -/
def evaluate (ops : List Op) (graph : Graph) (inputs : OrderedMap String Strided) :
    Result Environment := do
  let final ← graph.nodes.foldlM (Environment.step ops) (← initialEnvironment graph inputs)
  let outputs ← graph.outputs.mapM fun name ↦ do return (name, ← final.value name)
  return OrderedMap.ofList outputs

end Handover
