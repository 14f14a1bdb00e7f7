import Handover.Check.Registry

/-!
# The structure check

Verifies that every name of a graph is registered, that the roles fit together, and that every value
is produced before it is read (`Structure.findings`). Findings about a node carry its identifier and
its place.
-/

set_option autoImplicit false
set_option relaxedAutoImplicit false

namespace Handover.Structure

/-- An error of the structure check. -/
def plainFinding (message : String) : Finding := ⟨"structure", .error, message, none, none⟩

/-- An error of the structure check about a node. -/
def nodeFinding (graph : Graph) (node : Node) (message : String) : Result Finding := do
  return ⟨"structure", .error, message, some node.id, some (← graph.indexOf node.id)⟩

/-- Findings for the items of a list that satisfy a condition. -/
def findingsFor {α : Type} (items : List α) (found : α → Bool) (report : α → Result Finding) :
    Result (List Finding) :=
  (items.filter found).mapM report

/-- The names of a node that are not registered, and its operator when it has no definition. -/
def registrations (ops : List Op) (graph : Graph) (node : Node) : Result (List Finding) := do
  let isMissing (name : String) : Bool := !graph.tensors.contains name
  let inputs ← findingsFor node.inputs isMissing fun name ↦
    nodeFinding graph node (node.op.name ++ " references unknown input tensor '" ++ name ++ "'")
  let outputs ← findingsFor node.outputs isMissing fun name ↦
    nodeFinding graph node (node.op.name ++ " output tensor '" ++ name ++ "' not in registry")
  let definitions ← findingsFor [node.op] (fun op ↦ !ops.contains op) fun op ↦
    nodeFinding graph node ("No definition for op " ++ op.name)
  return inputs ++ outputs ++ definitions

/-- The names of a role that are not registered. -/
def unregisteredRoles (graph : Graph) (role : String) (names : List String) : List Finding :=
  (names.filter fun name ↦ !graph.tensors.contains name).map fun name ↦
    plainFinding ("Graph " ++ role ++ " '" ++ name ++ "' not in tensor registry")

/-- The names of a role of external tensors that a node binds. -/
def boundRoles (graph : Graph) (role : String) (names : List String) : Result (List Finding) := do
  let found ← names.mapM fun name ↦ do
    match ← graph.producers name with
    | [] => return []
    | node :: _ =>
      return [← nodeFinding graph node ("Graph " ++ role ++ " '" ++ name ++
        "' is produced by node " ++ integerText node.id ++ " (should be external)")]
  return found.flatten

/-- The outputs of a graph that are constants or that nothing provides. -/
def outputRoles (graph : Graph) : Result (List Finding) := do
  let found ← graph.outputs.mapM fun name ↦ do
    if graph.constants.contains name then
      return [plainFinding ("Graph output '" ++ name ++ "' is a constant")]
    let producers ← graph.producers name
    if producers.isEmpty && !graph.inputs.contains name then
      return [plainFinding ("Graph output '" ++ name ++ "' has no producer node")]
    return []
  return found.flatten

/-- The reads of nodes of names that no earlier node, input or constant defines. -/
def earlyReads (graph : Graph) : List String → List Node → Result (List Finding)
  | _, [] => .ok []
  | defined, node :: rest => do
    let isEarly (name : String) : Bool := graph.tensors.contains name && !defined.contains name
    let found ← findingsFor node.inputs isEarly fun name ↦
      nodeFinding graph node
        (node.op.name ++ " reads '" ++ name ++ "' before any node produces it")
    return found ++ (← earlyReads graph (defined ++ node.outputs) rest)

/-- The number of items of a value that has items. -/
def itemCount (value : Attr) : Result Nat :=
  match value with
  | .text content => .ok content.length
  | value => do
    return (← value.elements).length

/-- A node whose outputs are not as many as its attribute `sizes` lists. -/
def splitArity (graph : Graph) (node : Node) : Result (List Finding) := do
  match (node.attrs.find? "sizes").getD .null with
  | .null => return []
  | sizes =>
    let count ← itemCount sizes
    if count = node.outputs.length then
      return []
    return [← nodeFinding graph node (node.op.name ++ " has " ++
      integerText node.outputs.length ++ " outputs for " ++ integerText count ++ " sizes")]

/-- The findings of the structure check, in order. -/
def findings (ops : List Op) (graph : Graph) : Result (List Finding) := do
  let registered ← graph.nodes.mapM (registrations ops graph)
  let roles := unregisteredRoles graph "input" graph.inputs ++
    unregisteredRoles graph "constant" graph.constants ++
    unregisteredRoles graph "output" graph.outputs
  let boundInputs ← boundRoles graph "input" graph.inputs
  let boundConstants ← boundRoles graph "constant" graph.constants
  let outputs ← outputRoles graph
  let reads ← earlyReads graph (graph.inputs ++ graph.constants) graph.nodes
  let arities ← graph.nodes.mapM (splitArity graph)
  return registered.flatten ++ roles ++ boundInputs ++ boundConstants ++ outputs ++ reads ++
    arities.flatten

end Handover.Structure
