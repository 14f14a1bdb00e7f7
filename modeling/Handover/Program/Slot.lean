import Handover.Program.Expression

/-!
# Owned slots

Only the first operand of a node can be owned: its expression may then overwrite or alias the value
(`ownsFirstInput`). An operator whose expression is a view always owns it. Any other operator owns
it when it has an in-place form and its single output has the shape and the element type of the
first input, and is then written in that form (`nodeExpression`). All other slots are borrowed, and
their expressions only read the value.
-/

set_option autoImplicit false
set_option relaxedAutoImplicit false

namespace Handover

/-- Refuses an operator that has no definition among the given ones. -/
def requireDefined (ops : List Op) (op : Op) : Result Unit :=
  if ops.contains op then .ok () else .error (.noDefinition op)

/-- Whether the expression of a node owns its first input. -/
def ownsFirstInput (ops : List Op) (graph : Graph) (node : Node) : Result Bool := do
  requireDefined ops node.op
  if node.op.isView then
    return true
  if !node.op.hasInPlaceForm then
    return false
  match node.inputs, node.outputs with
  | first :: _, [output] =>
    let source ← graph.tensor first
    let target ← graph.tensor output
    return Attr.sameItems source.shape target.shape &&
      source.elementType == target.elementType
  | _, _ => return false

/-- The expression of a node over given references. -/
def nodeExpression (ops : List Op) (graph : Graph) (node : Node) (references : List String) :
    Result String := do
  requireDefined ops node.op
  if !node.op.isView && node.op.hasInPlaceForm && (← ownsFirstInput ops graph node) then
    node.op.inPlaceForm references node.attrs
  else node.op.functionalForm references node.attrs

end Handover
