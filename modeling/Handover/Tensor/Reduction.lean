import Handover.Tensor.Arrangement
import Handover.Tensor.Elementwise
import Handover.Tensor.Summation

/-!
# Reductions

A reduction combines all elements that differ only in the coordinates of some axes. Its result
leaves those dimensions out or keeps them with length one. Sums of truth values and of integers are
64-bit integers (`Strided.sum`); a maximum over no elements fails (`Strided.max`). `Strided.mean`
and `Strided.variance` reduce one axis, which keeps length one.
-/

set_option autoImplicit false
set_option relaxedAutoImplicit false

namespace Handover

/-- The type of the sum of elements of a type. -/
def sumType (t : ElementType) : ElementType :=
  match t.kind with
  | .truth | .integer true _ => .int64
  | .integer false _ => .uint64
  | .real _ => t

/-- The type in which the mean of elements of a type is formed: a narrow one is formed in 32
bits. -/
def meanType (t : ElementType) : ElementType := if t.isReal then chunkType t else .float64

/-- The type in which the variance of elements of a type is formed. -/
def varianceType (t : ElementType) : ElementType := if t.isReal then t else .float64

namespace Strided

variable (operand : Strided)

/-- The sums along some axes. -/
def sum (axes : List Nat) (keep : Bool) : Strided :=
  operand.sumAs (sumType operand.tensor.elementType) axes keep

/-- The greatest of some elements, where `greater` chooses between two. -/
def greatest {t : ElementType} (greater : Word t → Word t → Word t) : List (Word t) → Word t
  | [] => 0
  | first :: rest => rest.foldl greater first

/-- The greatest elements along some axes. In a chunk the first of two zeros is kept; elsewhere rows
meet as tensors do. -/
def max (axes : List Nat) (keep : Bool) : Result Strided :=
  let inner := axes.map fun axis ↦ operand.tensor.shape.getD axis 1
  let outer := (operand.keptAxes axes).map fun axis ↦ operand.tensor.shape.getD axis 1
  if Shape.size inner = 0 ∧ Shape.size outer ≠ 0 then fails .emptyMaximum
  else
    let walk := operand.reductionWalk axes
    let greater := if walk.chunk.isEmpty then Word.maximum else Word.firstMaximum
    let inside := operand.coordinates (walk.outer ++ walk.chunk)
    .ok (operand.reduced operand.tensor.elementType axes keep fun outside ↦
      greatest greater (inside.map fun coordinates ↦ operand.getAt (coordinates ++ outside)))

/-- The tensor with its elements brought to a type. -/
def convert (t : ElementType) : Strided :=
  { tensor := operand.tensor.convert t, strides := operand.strides }

/-- The floating-point elements over a count. Quotients are formed in 64 bits and then rounded to
the type of the elements. -/
def dividedBy (count : Nat) : Result Strided := do
  let divisor := single .int64 (Word.ofInt .int64 count)
  return (← binary .divide operand divisor).convert operand.tensor.elementType

/-- The means along one axis, which keeps length one. -/
def mean (axis : Nat) : Result Strided := do
  let t := operand.tensor.elementType
  let mean ← (operand.sumAs (meanType t) [axis] true).dividedBy (operand.tensor.shape.getD axis 0)
  return if t.isReal then mean.convert t else mean

/-- The variances along one axis, which keeps length one: the means of the squared distances to the
mean. -/
def variance (axis : Nat) : Result Strided := do
  let t := varianceType operand.tensor.elementType
  let count := operand.tensor.shape.getD axis 0
  let mean ← (operand.sumAs t [axis] true).dividedBy count
  let distance ← binary .subtract operand mean
  let squared ← binary .multiply distance distance
  (squared.sum [axis] true).dividedBy count

end Strided

end Handover
