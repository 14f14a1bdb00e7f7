import Handover.Evaluation.Argument
import Handover.Tensor.Product

/-!
# Evaluation of operators

The result of an operator on given operands and attributes (`Op.evaluate`). Operands are read before
attributes, save the sizes of pieces. Element-wise operators take their second operand from the
attribute `scalar` if there is one. Reductions and rearrangements gather what is no array yet.
-/

set_option autoImplicit false
set_option relaxedAutoImplicit false

namespace Handover

namespace Evaluation

open Value (operand operate)

/-! ### Element-wise operators -/

/-- The value of the attribute `scalar`, in which a scalar is a plain value. -/
def scalarValue (attr : Attr) : Value := Value.ofAttr attr.unwrap

/-- The result of an operator on two operands, the second perhaps an attribute. -/
def elementwise (operation : BinaryOperation) (operands : List Value) (attrs : Attrs) :
    Result Value := do
  let a ← operand operands 0
  match attrs.find? "scalar" with
  | some attr => operate operation a (scalarValue attr)
  | none => operate operation a (← operand operands 1)

/-- The result of raising an operand to the power of an attribute. -/
def power (operands : List Value) (attrs : Attrs) : Result Value := do
  let a ← operand operands 0
  Value.combine .power a (scalarValue (← attrs.get "scalar"))

/-- The 64-bit floating-point number nearest to `numerator / 10^places`. -/
def fraction (numerator places : Nat) : Value :=
  .plain (.real
    (Word.ofBits .float64 (BinaryFormat.double.round false numerator (Nat.pow 10 places))))

/-- An integer as a value. -/
def integer (value : Int) : Value := .plain (.int value)

/-- Half of `x · (1 + tanh (0.7978845608 · (x + 0.044715 · x³)))`. -/
def smoothRectifier (x : Value) : Result Value := do
  let halved ← operate .multiply (fraction 5 1) x
  let cube ← operate .power x (integer 3)
  let bent ← operate .add x (← operate .multiply (fraction 44715 6) cube)
  let scaled ← operate .multiply (fraction 7978845608 10) bent
  let weight ← operate .add (integer 1) (← scaled.mapReal fun _ ↦ Word.hyperbolicTangent)
  operate .multiply halved weight

/-! ### Reductions and normalization -/

/-- An operand gathered to be reduced along axes that a value asks for, and these axes. -/
def reductionOperand (x : Value) (axis : Attr) (flaw : Flaw) : Result (Strided × List Nat) := do
  let gathered ← x.gather
  let axes ← axis.asAxes gathered.shape.length
  match gathered with
  | .numbers numbers => return (numbers, axes)
  | .texts _ => fails flaw
  | .things _ => fails .wrongKind

/-- The result of a reduction of an operand along the axes of an attribute, or the given flaw for
texts. -/
def reduction (operands : List Value) (attrs : Attrs) (flaw : Flaw)
    (reduce : Strided → List Nat → Bool → Result Strided) : Result Value := do
  let x ← operand operands 0
  let axis ← attrs.get "axis"
  let keep ← ((attrs.find? "keepdim").getD (.bool false)).asKeeping
  let (x, axes) ← reductionOperand x axis flaw
  return Value.ofComputed (← reduce x axes keep)

/-- The exponentials of the elements over their sum along some axes, after the greatest element is
taken away from each. -/
def exponentialShares (x : Strided) (axes : List Nat) : Result Strided := do
  let distance ← Strided.binary .subtract x (← x.max axes true)
  let exponentials := distance.mapReal fun _ ↦ Word.exponential
  Strided.binary .divide exponentials (exponentials.sum axes true)

/-- The exponential shares of an operand along the axes of an attribute. -/
def shares (operands : List Value) (attrs : Attrs) : Result Value := do
  let x ← operand operands 0
  let axis ← attrs.get "axis"
  let (x, axes) ← reductionOperand x axis .unsupportedOperands
  return Value.ofComputed (← exponentialShares x axes)

/-- The elements moved to mean zero and scaled to variance one along the last dimension, then scaled
and moved by two more operands. -/
def normalize (x gamma beta epsilon : Value) : Result Value := do
  let gathered ← x.gather
  let axis ← Attr.dimensionOf gathered.shape.length (-1)
  let numbers ← x.gatherNumbers .wrongKind
  let mean ← numbers.mean axis
  let variance ← numbers.variance axis
  let centred ← operate .subtract x (.array mean)
  let spread ← operate .add (.array variance) epsilon
  let deviation ← spread.mapReal fun _ ↦ Word.squareRoot
  let normalized ← operate .divide centred deviation
  operate .add (← operate .multiply normalized gamma) beta

/-- The result of normalization. -/
def layerNormalization (operands : List Value) (attrs : Attrs) : Result Value := do
  let x ← operand operands 0
  let gamma ← operand operands 1
  let beta ← operand operands 2
  normalize x gamma beta (.ofAttr attrs.normalizationFloor)

/-! ### Products -/

/-- The matrix product of two gathered values. -/
def gatheredProduct (a b : Gathered) : Result Value :=
  match a, b with
  | .numbers a, .numbers b => do
    return Value.ofComputed (.ofTensor (← Tensor.product a.tensor b.tensor))
  | .things _, b => if b.shape.isEmpty then fails .shapeMismatch else fails .wrongKind
  | a, .things _ => if a.shape.isEmpty then fails .shapeMismatch else fails .wrongKind
  | _, _ => fails .unsupportedOperands

/-- The matrix product of two values, of which one must be an array. -/
def product (a b : Value) : Result Value := do
  if !(a.isArray || b.isArray) then fails .wrongKind
  let first ← a.gather
  gatheredProduct first (← b.gather)

/-- A value with its dimensions in reverse order. -/
def reversed : Value → Result Value
  | .array value => .ok (.array value.reverseDimensions)
  | .scalar value => .ok (.scalar value)
  | _ => fails .noMember

/-- The product of an operand with the reversed second operand, and a third operand added to it. -/
def affineProduct (operands : List Value) : Result Value := do
  let x ← operand operands 0
  let weight ← operand operands 1
  let projected ← product x (← reversed weight)
  operate .add projected (operands[2]?.getD (integer 0))

/-! ### Shape operators -/

/-- The elements of an array or a scalar in the shape of an attribute. -/
def reshaped (operands : List Value) (attrs : Attrs) : Result Value := do
  let x ← operand operands 0
  let inShape (x : Strided) : Result Strided := do
    match ← (← attrs.get "shape").asLengths with
    | some lengths => x.reshape lengths
    | none => return x
  match x with
  | .array x => return .array (← inShape x)
  | .scalar x => return Value.ofComputed (← inShape (Strided.single x.elementType x.word))
  | _ => fails .noMember

/-- An operand with two dimensions exchanged. -/
def exchanged (operands : List Value) (attrs : Attrs) : Result Value := do
  let x ← operand operands 0
  let first ← attrs.get "dim0"
  let second ← attrs.get "dim1"
  let gathered ← x.gather
  let first ← first.asDimensionNumber
  let second ← second.asDimensionNumber
  let first ← Attr.dimensionOf gathered.shape.length first
  let second ← Attr.dimensionOf gathered.shape.length second
  match gathered with
  | .numbers x => return .array (x.exchangeDimensions first second)
  | .texts _ | .things _ => fails .wrongKind

/-- The number of items of a value that is no array. -/
def itemCount : Value → Result Nat
  | .list items | .tuple items => .ok items.length
  | .plain (.text content) => .ok content.length
  | .plain (.record fields) => .ok fields.length
  | _ => fails .wrongKind

/-- The dimension along which a value is cut, and where the last piece ends. What is no array yet
ends at the number of its items. -/
def cutRange (x : Value) (dim : Attr) : Result (Gathered × Nat × Nat) := do
  match x with
  | .array x =>
    let axis ← dim.asCutDimension x.rank
    return (.numbers x, axis, x.tensor.shape.getD axis 0)
  | .scalar x =>
    let axis ← dim.asCutDimension 0
    return (.numbers (Strided.single x.elementType x.word), axis, 0)
  | x =>
    let stop ← itemCount x
    let gathered ← x.gather
    let axis ← Attr.dimensionOf gathered.shape.length (← dim.asDimensionNumber)
    return (gathered, axis, stop)

/-- The pieces of an operand along a dimension, whose sizes an attribute lists. -/
def piecesOf (operands : List Value) (attrs : Attrs) : Result (List Value) := do
  let points ← cutPoints (.ofAttr (← attrs.get "sizes"))
  let x ← operand operands 0
  let dim ← attrs.get "dim"
  let (gathered, axis, stop) ← cutRange x dim
  match points.mapM id, gathered with
  | some points, .numbers x => return (x.cut axis points stop).map Value.array
  | _, _ => fails .wrongKind

/-- The operands joined along a dimension; without one, their elements are joined in order. -/
def join (operands : List Value) (attrs : Attrs) : Result Value := do
  let dim ← attrs.get "dim"
  match dim with
  | .null =>
    let parts ← operands.mapM fun value ↦ value.gatherNumbers .wrongKind
    return .array (← Strided.concatenate (parts.map Strided.flatten) 0)
  | dim =>
    let axis ← dim.asAxisNumber
    let parts ← operands.mapM fun value ↦ value.gatherNumbers .wrongKind
    return .array (← Strided.concatenate parts axis)

end Evaluation

open Evaluation in
/-- The result of an operator. -/
def Op.evaluate (op : Op) (operands : List Value) (attrs : Attrs) : Result Value := do
  let first : Result Value := Value.operand operands 0
  match op with
  | .add => elementwise .add operands attrs
  | .sub => elementwise .subtract operands attrs
  | .mul => elementwise .multiply operands attrs
  | .div => elementwise .divide operands attrs
  | .relu => Value.combine .maximum (← first) (integer 0)
  | .exp => (← first).mapReal fun _ ↦ Word.exponential
  | .tanh => (← first).mapReal fun _ ↦ Word.hyperbolicTangent
  | .neg => (← first).negate
  | .pow => power operands attrs
  | .gelu => smoothRectifier (← first)
  | .max => reduction operands attrs .unsupportedOperands Strided.max
  | .sum => reduction operands attrs .wrongKind fun x axes keep ↦ .ok (x.sum axes keep)
  | .softmax => shares operands attrs
  | .matmul => do product (← first) (← Value.operand operands 1)
  | .linear => affineProduct operands
  | .reshape => reshaped operands attrs
  | .transpose => exchanged operands attrs
  | .split => return .list (← piecesOf operands attrs)
  | .cat => join operands attrs
  | .layernorm => layerNormalization operands attrs

end Handover
