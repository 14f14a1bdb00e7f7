import Handover.Element.Arithmetic
import Handover.Error
import Handover.Tensor.Layout

/-!
# Element-wise operations

Two tensors meet element by element after their shapes are aligned from the last dimension, where a
dimension of length one repeats (`Shape.broadcast?`). An operand may also be a number without an
element type (`Operand`), which takes the type of the tensor it meets: an integer must fit it, and a
fraction turns integers into 64-bit floating-point numbers.
-/

set_option autoImplicit false
set_option relaxedAutoImplicit false

namespace Handover

/-! ### Aligning shapes -/

namespace Shape

/-- The lengths, the last dimension first, of the box that two boxes are repeated to. -/
def broadcastReversed? : List Nat → List Nat → Option (List Nat)
  | [], b => some b
  | a, [] => some a
  | x :: a, y :: b =>
    if x = y ∨ y = 1 then (broadcastReversed? a b).map (x :: ·)
    else if x = 1 then (broadcastReversed? a b).map (y :: ·)
    else none

/-- The box that two boxes are repeated to, if they fit together. -/
def broadcast? (a b : List Nat) : Option (List Nat) :=
  (broadcastReversed? a.reverse b.reverse).map List.reverse

/-- The index of a box that an index of the repeated box reads. -/
def broadcastIndex (shape index : List Nat) : List Nat :=
  List.zipWith (fun length coordinate ↦ if length = 1 then 0 else coordinate) shape
    (index.drop (index.length - shape.length))

end Shape

namespace Tensor

/-- The tensor of the results of a function on the elements of two tensors. -/
def zipWith (t : ElementType) (a b : Tensor)
    (combine : Word a.elementType → Word b.elementType → Word t) : Result Tensor :=
  match Shape.broadcast? a.shape b.shape with
  | none => fails .shapeMismatch
  | some shape =>
    .ok (tabulate t shape fun index ↦
      combine (a.get (Shape.broadcastIndex a.shape index))
        (b.get (Shape.broadcastIndex b.shape index)))

/-- The results of a function on the elements of two tensors after both are brought to a type. -/
def zipAt (t : ElementType) (combine : Word t → Word t → Word t) (a b : Tensor) : Result Tensor :=
  zipWith t a b fun x y ↦ combine (x.convert t) (y.convert t)

end Tensor

/-! ### Operations on two operands -/

/-- The operations on two operands. -/
inductive BinaryOperation
  | add | subtract | multiply | divide | maximum | power
deriving DecidableEq, Repr

namespace BinaryOperation

/-- The type in which an operation on operands of a common type is computed. Quotients leave the
integers, and powers of truth values are integers. -/
def computeType (operation : BinaryOperation) (common : ElementType) : ElementType :=
  match operation with
  | divide => if common.isReal then common else .float64
  | power => if common = .bool then .int8 else common
  | _ => common

/-- The function of an operation on elements of one type, where `steady` says whether the second
operand stays the same along the innermost dimension of the walk. -/
def combine (operation : BinaryOperation) (steady : Bool) {t : ElementType} (a b : Word t) :
    Word t :=
  match operation with
  | add => a.add b
  | subtract => a.subtract b
  | multiply => a.multiply b
  | divide => a.divide b
  | maximum => a.maximum b
  | power => if steady then a.steadyPower b else a.power b

end BinaryOperation

/-- An operand: a tensor, or a number that takes the type it meets. -/
inductive Operand
  | tensor (value : Strided)
  | integer (value : Int)
  | fraction (value : Word .float64)

/-- Whether some element of a tensor of integers is negative. -/
def Tensor.anyNegative (tensor : Tensor) : Bool := tensor.elements.any fun word ↦ word.toInt < 0

/-- The integer as an element of a floating-point type, by way of 64 bits; one that is too large for
64 bits fails. -/
def integerAsReal (t : ElementType) (value : Int) : Result (Word t) :=
  let word := BinaryFormat.double.ofInt value
  match BinaryFormat.double.decode word with
  | .infinite _ => fails .numberOutOfRange
  | _ => .ok ((Word.ofBits .float64 word).convert t)

namespace Strided

/-- The tensor without dimensions that holds one element. -/
def single (t : ElementType) (word : Word t) : Strided := ofTensor (Tensor.single t word)

/-- Whether the second operand stays the same along the innermost dimension that a walk over a box
moves along. Operands of one shape are walked together, element by element. -/
def isSteady (shape : List Nat) (a b : Strided) : Bool :=
  if b.rank = 0 then true
  else if a.tensor.shape = b.tensor.shape then false
  else
    let steps := b.steps shape.length
    let walked := (axisOrder shape.length [a.steps shape.length, steps]).filter fun axis ↦
      shape.getD axis 1 ≠ 1
    match walked.getLast? with
    | none => true
    | some axis => steps.getD axis 0 = 0

/-- The results of an operation on two tensors. Truth values have no difference, and integers no
negative powers. -/
def binary (operation : BinaryOperation) (a b : Strided) : Result Strided :=
  let common := a.tensor.elementType.promote b.tensor.elementType
  let t := operation.computeType common
  if operation = .subtract ∧ common = .bool then fails .truthArithmetic
  else
    match Shape.broadcast? a.tensor.shape b.tensor.shape with
    | none => fails .shapeMismatch
    | some shape =>
      if operation = .power ∧ !t.isReal ∧ Shape.size shape ≠ 0 ∧ b.tensor.anyNegative then
        fails .negativePower
      else do
        let results ← Tensor.zipAt t (operation.combine (isSteady shape a b)) a.tensor b.tensor
        return following results [a, b]

end Strided

/-- The tensor of an operand that meets elements of a given type. -/
def Operand.against (t : ElementType) : Operand → Result Strided
  | tensor value => .ok value
  | integer value =>
    if t.isReal then do
      return Strided.single t (← integerAsReal t value)
    else
      let host := if t = .bool then ElementType.int64 else t
      if host.holds value then .ok (Strided.single host (Word.ofInt host value))
      else fails .numberOutOfRange
  | fraction value =>
    if t.isReal then .ok (Strided.single t (value.convert t))
    else .ok (Strided.single .float64 value)

namespace Strided

/-- The type that a number without a type meets in a tensor: a divisor and a dividend meet integers
as the floating-point numbers they are divided as. -/
def metType (operation : BinaryOperation) (operand : Strided) : ElementType :=
  let t := operand.tensor.elementType
  if operation = .divide then operation.computeType t else t

/-- The results of an operation on a tensor and an operand. -/
def withOperand (operation : BinaryOperation) (a : Strided) (b : Operand) : Result Strided := do
  binary operation a (← b.against (a.metType operation))

/-- The results of an operation on an operand and a tensor. -/
def onOperand (operation : BinaryOperation) (a : Operand) (b : Strided) : Result Strided := do
  binary operation (← a.against (b.metType operation)) b

/-! ### Operations on one operand -/

/-- The tensor with the opposite signs; truth values have none. -/
def negate (operand : Strided) : Result Strided :=
  let tensor := operand.tensor
  if tensor.elementType = .bool then fails .truthArithmetic
  else .ok (following (tensor.map tensor.elementType Word.negate) [operand])

/-- The results of a function of floating-point numbers, in the narrowest type that holds the
elements. -/
def mapReal (operand : Strided) (function : (t : ElementType) → Word t → Word t) : Strided :=
  let t := operand.tensor.elementType.realHost
  following (operand.tensor.map t fun word ↦ function t (word.convert t)) [operand]

end Strided

end Handover
