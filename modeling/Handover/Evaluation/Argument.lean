import Handover.Evaluation.Operation
import Handover.Tensor.Reduction

/-!
# Arguments of an evaluation

How the evaluation of an operator reads its attributes: as axes of a reduction (`Attr.asAxes`), as
dimensions that are exchanged (`Attr.asDimensionNumber`) or cut along (`Attr.asCutDimension`), and
as the sizes of pieces, whose running totals are the places where a tensor is cut (`cutPoints`).
-/

set_option autoImplicit false
set_option relaxedAutoImplicit false

namespace Handover

namespace Attr

/-! ### Axes and dimensions -/

/-- The number of an axis: an integer that fits the word that counts dimensions. -/
def asAxisNumber (value : Attr) : Result Int :=
  match value.whole? with
  | none => fails .wrongKind
  | some axis =>
    if !ElementType.int64.holds axis then fails .numberOutOfRange
    else if !ElementType.int32.holds axis then fails .axisTooWide
    else .ok axis

/-- The dimension of an axis number of a tensor. -/
def dimensionOf (rank : Nat) (axis : Int) : Result Nat :=
  match Shape.dimension? rank axis with
  | some dimension => .ok dimension
  | none => fails .axisOutOfRange

/-- The axes that a value asks for: nothing asks for all of them, an integer for one, and a tuple
for several different ones. A tensor without dimensions also has axis zero, from either side. -/
def asAxes (rank : Nat) (value : Attr) : Result (List Nat) :=
  match value with
  | null => .ok (List.range rank)
  | tuple items _ => do
    let axes ← items.mapM fun item ↦ do dimensionOf rank (← item.asAxisNumber)
    if axes.eraseDups.length < axes.length then fails .repeatedAxis else return axes
  | value => do
    let axis ← value.asAxisNumber
    if rank = 0 ∧ (axis = 0 ∨ axis = -1) then return []
    return [← dimensionOf rank axis]

/-- Whether the reduced dimensions are kept: an integer or a truth value. -/
def asKeeping (value : Attr) : Result Bool :=
  match value with
  | bool value => .ok value
  | value =>
    match value.whole? with
    | none => fails .wrongKind
    | some number =>
      if ElementType.int32.holds number then .ok (number != 0) else fails .numberOutOfRange

/-- The integer that numbers a dimension; a truth value numbers one too. -/
def dimensionNumber? (value : Attr) : Option Int :=
  match value with
  | bool value => some (if value then 1 else 0)
  | value => value.whole?

/-- The number of a dimension that is exchanged, which fits the word that counts dimensions. -/
def asDimensionNumber (value : Attr) : Result Int :=
  match value.dimensionNumber? with
  | none => fails .wrongKind
  | some number =>
    if ElementType.int32.holds number then .ok number else fails .numberOutOfRange

/-- The dimension of a tensor that a value names where the tensor is cut. -/
def asCutDimension (rank : Nat) (value : Attr) : Result Nat :=
  match value.dimensionNumber? with
  | none => fails .wrongKind
  | some number =>
    match Shape.dimension? rank number with
    | some dimension => .ok dimension
    | none => fails .dimensionOutOfRange

end Attr

/-! ### Sizes of pieces -/

/-- The sums of the leading words of a list, which wrap at their width. -/
def runningTotals {t : ElementType} (total : Word t) : List (Word t) → List (Word t)
  | [] => []
  | word :: rest => total.add word :: runningTotals (total.add word) rest

/-- The sums of the leading values of a list. -/
def runningValues (total : Value) : List Value → Result (List Value)
  | [] => .ok [total]
  | value :: rest => do
    let next ← Value.operate .add total value
    return total :: (← runningValues next rest)

/-- The places where a tensor is cut, or nothing where they are no integers: the running totals of
the sizes of the pieces, of which the last is none. Sizes of one integer type wrap at 64 bits, and
sizes that no such type holds are added as they are. -/
def cutPoints (sizes : Value) : Result (List (Option Int)) := do
  match ← sizes.gather with
  | .numbers numbers =>
    let t := sumType numbers.tensor.elementType
    let totals := runningTotals (0 : Word t) (numbers.tensor.toList.map (Word.convert t))
    return totals.dropLast.map fun total ↦ if t.isReal then none else some total.toInt
  | .texts _ => fails .wrongKind
  | .things _ =>
    match sizes.leaves with
    | [] => return []
    | first :: rest => return (← runningValues first rest).dropLast.map Value.count?

end Handover
