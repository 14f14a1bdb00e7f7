import Handover.Attr.Integer

/-!
# Expressions

The expression that an operator is written as, from the references to its operands and its
attributes. The functional form (`Op.functionalForm`) reads all operands. The in-place form
(`Op.inPlaceForm`) writes the result into the first operand, and exists for element-wise operators.
The second operand of a binary operator is the attribute `scalar` if there is one.
-/

set_option autoImplicit false
set_option relaxedAutoImplicit false

namespace Handover

/-- The reference to an operand. -/
def operandAt (references : List String) (slot : Nat) : Result String :=
  match references[slot]? with
  | some reference => .ok reference
  | none => fails .missingOperand

/-- The name that an element-wise operator has as a function. -/
def Op.functionName : Op → String
  | relu => "relu"
  | exp => "exp"
  | tanh => "tanh"
  | neg => "neg"
  | pow => "pow"
  | add => "add"
  | sub => "sub"
  | mul => "mul"
  | div => "div"
  | max => "amax"
  | sum => "sum"
  | softmax => "softmax"
  | matmul => "matmul"
  | cat => "cat"
  | split => "split"
  | gelu => "gelu"
  | linear => "linear"
  | reshape => "reshape"
  | transpose => "transpose"
  | layernorm => "layer_norm"

/-- The arguments of an element-wise operator after its first operand. -/
def Op.otherArguments (op : Op) (references : List String) (attrs : Attrs) :
    Result (List String) :=
  match op with
  | add | sub | mul | div =>
    match attrs.find? "scalar" with
    | some scalar => do
      return [← scalar.literal]
    | none => do
      return [← operandAt references 1]
  | pow => do
    return [← (← attrs.get "scalar").literal]
  | _ => .ok []

/-- The in-place form of an operator that has one. -/
def Op.inPlaceForm (op : Op) (references : List String) (attrs : Attrs) : Result String := do
  let first ← operandAt references 0
  let others ← op.otherArguments references attrs
  return first ++ "." ++ op.functionName ++ "_(" ++ ", ".intercalate others ++ ")"

/-- The attribute of a reduction that says whether its dimensions are kept. -/
def keepsDimensions (attrs : Attrs) : Bool := ((attrs.find? "keepdim").getD (.bool false)).isTrue

/-- The functional form of an operator. -/
def Op.functionalForm (op : Op) (references : List String) (attrs : Attrs) : Result String := do
  match op with
  | matmul =>
    let left ← operandAt references 0
    let right ← operandAt references 1
    return "torch.matmul(" ++ left ++ ", " ++ right ++ ")"
  | linear => return "F.linear(" ++ ", ".intercalate references ++ ")"
  | gelu => return "F.gelu(" ++ (← operandAt references 0) ++ ", approximate='tanh')"
  | max | sum =>
    let first ← operandAt references 0
    let axis ← (← attrs.get "axis").literal
    return "torch." ++ op.functionName ++ "(" ++ first ++ ", dim=" ++ axis ++
      ", keepdim=" ++ (if keepsDimensions attrs then "True" else "False") ++ ")"
  | softmax =>
    let first ← operandAt references 0
    let axis ← (← attrs.get "axis").literal
    return "torch.softmax(" ++ first ++ ", dim=" ++ axis ++ ")"
  | reshape =>
    let first ← operandAt references 0
    let shape ← (← attrs.get "shape").toIntegers
    return first ++ ".reshape(" ++ (← (Attr.tuple (shape.map .int)).literal) ++ ")"
  | transpose =>
    let first ← operandAt references 0
    let one ← (← attrs.get "dim0").display
    let other ← (← attrs.get "dim1").display
    return first ++ ".transpose(" ++ one ++ ", " ++ other ++ ")"
  | split =>
    let first ← operandAt references 0
    let sizes ← (← attrs.get "sizes").toIntegers
    let sizes ← (Attr.list (sizes.map .int)).literal
    let axis ← (← attrs.get "dim").toInteger
    let axis ← (Attr.int axis).literal
    return "torch.split(" ++ first ++ ", " ++ sizes ++ ", dim=" ++ axis ++ ")"
  | cat =>
    let axis ← (← attrs.get "dim").display
    return "torch.cat([" ++ ", ".intercalate references ++ "], dim=" ++ axis ++ ")"
  | layernorm =>
    let first ← operandAt references 0
    let weight ← operandAt references 1
    let bias ← operandAt references 2
    let floor ← attrs.normalizationFloor.literal
    return "F.layer_norm(" ++ first ++ ", " ++ weight ++ ".shape, " ++ weight ++ ", " ++ bias ++
      ", eps=" ++ floor ++ ")"
  | _ =>
    let first ← operandAt references 0
    let others ← op.otherArguments references attrs
    return "torch." ++ op.functionName ++ "(" ++ ", ".intercalate (first :: others) ++ ")"

end Handover
