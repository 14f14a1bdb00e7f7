import Handover.Tensor.Basic

/-!
# Layouts

How the elements of a tensor stand in memory (`Strided`): for each dimension a stride, the number of
elements that neighbours along it are apart, and for all elements the order of their bytes. A layout
never changes an element, but sums are formed in the order of memory, and rounding makes that order
visible; and where bytes are stored as they stand, their order is seen. A new tensor stands row by
row, with the lowest byte of each element first (`Strided.ofTensor`). One that is computed element
by element follows its operands (`Strided.following`), whose dimensions are walked from the greatest
stride to the least (`axisOrder`). Only an element that stays where it is keeps its highest byte
first.
-/

set_option autoImplicit false
set_option relaxedAutoImplicit false

namespace Handover

namespace Shape

/-- The strides of a box whose elements stand row by row. -/
def strides : List Nat → List Nat
  | [] => []
  | _ :: shape => size shape :: strides shape

/-- The strides of a box whose dimensions are nested in a given order, the outermost first. -/
def stridesInOrder (shape order : List Nat) : List Nat :=
  (List.range shape.length).map fun axis ↦
    size (((order.dropWhile (· != axis)).drop 1).map fun inner ↦ shape.getD inner 1)

end Shape

/-- A tensor with the strides of its elements in memory, and whether the highest byte of each
element comes first. -/
structure Strided where
  tensor : Tensor
  strides : List Nat
  highestFirst : Bool := false

instance : Inhabited Strided := ⟨{ tensor := default, strides := [] }⟩

/-! ### The order of a walk -/

section Walk

/-- Whether a dimension goes inside another one, as far as the strides of some operands tell: the
first operand that moves along both decides for the inside, and any one that does not disagree
decides against it. -/
def goesInside? (operands : List (List Nat)) (axis other : Nat) : Option Bool :=
  operands.foldl (fun verdict strides ↦
    let own := strides.getD axis 0
    let theirs := strides.getD other 0
    if own = 0 ∨ theirs = 0 then verdict
    else if theirs ≤ own then some false
    else some (verdict.getD true)) none

/-- How many dimensions, the outermost first, a new dimension is moved inside of. The search passes
dimensions it cannot be compared with and ends at the first that stays inside of it. -/
def insertionDepth (verdict : Nat → Option Bool) : Nat → Nat → List Nat → Nat
  | best, _, [] => best
  | best, passed, other :: rest =>
    match verdict other with
    | none => insertionDepth verdict best (passed + 1) rest
    | some true => insertionDepth verdict (passed + 1) (passed + 1) rest
    | some false => best

/-- The dimensions in the order in which some operands are walked, the outermost first. Dimensions
keep the order of the shape where the operands do not tell. -/
def axisOrder (rank : Nat) (operands : List (List Nat)) : List Nat :=
  (List.range rank).reverse.foldl (fun placed axis ↦
    let depth := insertionDepth (goesInside? operands axis) 0 0 placed
    placed.take depth ++ axis :: placed.drop depth) []

end Walk

namespace Strided

/-- A tensor that stands row by row, with the lowest byte of each element first. -/
def ofTensor (tensor : Tensor) : Strided := { tensor, strides := Shape.strides tensor.shape }

instance : Coe Tensor Strided := ⟨ofTensor⟩

variable (operand : Strided)

/-- Whether the bytes of each element stand in reverse; a single byte has no order. -/
def isReversed : Bool := operand.highestFirst && decide (1 < operand.tensor.elementType.byteCount)

/-- The name of the element type, or its code behind the mark of the order if the bytes of each
element stand in reverse. -/
def typeName : String :=
  if operand.isReversed then ">" ++ operand.tensor.elementType.code
  else operand.tensor.elementType.name

/-- The number of dimensions. -/
def rank : Nat := operand.tensor.rank

/-- The strides of a walk over a box of a given rank: a dimension that repeats has none. -/
def steps (rank : Nat) : List Nat :=
  List.replicate (rank - operand.rank) 0 ++
    List.zipWith (fun length stride ↦ if length = 1 then 0 else stride) operand.tensor.shape
      operand.strides

/-- A tensor that is computed from operands element by element, laid out as they are walked. -/
def following (result : Tensor) (operands : List Strided) : Strided :=
  let order := axisOrder result.rank (operands.map fun operand ↦ operand.steps result.rank)
  { tensor := result, strides := Shape.stridesInOrder result.shape order }

end Strided

end Handover
