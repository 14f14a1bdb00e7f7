import Handover.Element.Arithmetic
import Handover.Tensor.Layout

/-!
# Sums

The sum of the elements along some dimensions, formed in the order of memory (`Strided.sumAs`). If
the innermost dimension of the walk is summed over, it is added up in chunks: a chunk is all the
summed dimensions that stand one right inside the other from the innermost on, and its own sum is
formed in pairs (`pairwiseSum`), which keeps rounding small. All else is added one by one. Narrow
chunks are added in 32 bits and rounded once.
-/

set_option autoImplicit false
set_option relaxedAutoImplicit false

namespace Handover

/-! ### Sums of a chunk -/

section Pairwise

variable {t : ElementType}

/-- Elements added one by one to a total. -/
def addEach (total : Word t) (elements : List (Word t)) : Word t := elements.foldl Word.add total

/-- Eight running totals after so many rounds of eight elements, with the elements that are left. -/
def addRounds : Nat → List (Word t) → List (Word t) → List (Word t) × List (Word t)
  | 0, totals, rest => (totals, rest)
  | rounds + 1, totals, rest =>
    addRounds rounds (List.zipWith Word.add totals (rest.take 8)) (rest.drop 8)

/-- Eight totals added in pairs. -/
def addEight : List (Word t) → Word t
  | [a, b, c, d, e, f, g, h] =>
    ((a.add b).add (c.add d)).add ((e.add f).add (g.add h))
  | totals => addEach 0 totals

/-- The most elements that are added by eight running totals. -/
def blockSize : Nat := 128

/-- The sum of a chunk: up to seven elements are added one by one, a block by eight running totals
that are added in pairs before the rest, and more elements in two halves of whole rounds. -/
def pairwiseSum (elements : List (Word t)) : Word t :=
  let count := elements.length
  if count < 8 then addEach 0 elements
  else if count ≤ blockSize then
    let (totals, rest) := addRounds (count / 8 - 1) (elements.take 8) (elements.drop 8)
    addEach (addEight totals) rest
  else
    let half := count / 2 - count / 2 % 8
    (pairwiseSum (elements.take half)).add (pairwiseSum (elements.drop half))
termination_by elements.length
decreasing_by all_goals simp_all [blockSize]; omega

/-- The type in which a chunk of elements of a type is added up. -/
def chunkType (t : ElementType) : ElementType := if t = .float16 then .float32 else t

/-- A total with a chunk added to it. -/
def addChunk (total : Word t) (elements : List (Word t)) : Word t :=
  let wide := chunkType t
  let sum := pairwiseSum (elements.map (Word.convert wide))
  ((total.convert wide).add sum).convert t

end Pairwise

/-! ### The walk of a reduction -/

/-- The dimensions of a walk that differ from one, as a reduction along some of them sees them: the
outermost reduced ones first, and the ones that make up a chunk. -/
structure ReductionWalk where
  outer : List Nat
  chunk : List Nat
deriving DecidableEq, Repr

namespace Strided

variable (operand : Strided)

/-- The dimensions in the order in which the tensor is walked, the outermost first. -/
def walk : List Nat := axisOrder operand.rank [operand.steps operand.rank]

/-- The reduced dimensions that go on from the dimension inside of them without a gap, the innermost
first, where the next one must have a given stride. -/
def chunkFrom (axes : List Nat) : Option Nat → List Nat → List Nat
  | _, [] => []
  | expected, axis :: rest =>
    let length := operand.tensor.shape.getD axis 1
    let stride := operand.strides.getD axis 0
    if axes.contains axis && (expected.isNone || expected == some stride) then
      axis :: chunkFrom axes (some (length * stride)) rest
    else []

/-- The walk of a reduction along some dimensions. -/
def reductionWalk (axes : List Nat) : ReductionWalk :=
  let long := operand.walk.filter fun axis ↦ operand.tensor.shape.getD axis 1 ≠ 1
  let chunk := (operand.chunkFrom axes none long.reverse).reverse
  ⟨long.filter fun axis ↦ axes.contains axis && !chunk.contains axis, chunk⟩

/-- The coordinates of every index of a box of some of the dimensions, row by row. -/
def coordinates (axes : List Nat) : List (List (Nat × Nat)) :=
  (Shape.indices (axes.map fun axis ↦ operand.tensor.shape.getD axis 1)).map axes.zip

/-- The element at some coordinates, which are zero where none is given. -/
def getAt (coordinates : List (Nat × Nat)) : Word operand.tensor.elementType :=
  operand.tensor.get ((List.range operand.rank).map fun axis ↦
    ((coordinates.find? fun entry ↦ entry.1 = axis).map Prod.snd).getD 0)

/-- The dimensions that a reduction along some axes leaves. -/
def keptAxes (axes : List Nat) : List Nat :=
  (List.range operand.rank).filter fun axis ↦ !axes.contains axis

/-- The result of a reduction along some axes, given at the coordinates of the other dimensions. The
reduced dimensions are left out or keep length one, and the result is laid out as it is walked. -/
def reduced (t : ElementType) (axes : List Nat) (keep : Bool)
    (value : List (Nat × Nat) → Word t) : Strided :=
  let kept := operand.keptAxes axes
  let left := if keep then List.range operand.rank else kept
  let shape := left.map fun axis ↦
    if axes.contains axis then 1 else operand.tensor.shape.getD axis 1
  let order := (operand.walk.filter left.contains).map left.idxOf
  { tensor := Tensor.tabulate t shape fun index ↦ value (left.zip index)
    strides := Shape.stridesInOrder shape order }

/-- The sums along some axes of the elements brought to a type. -/
def sumAs (t : ElementType) (axes : List Nat) (keep : Bool) : Strided :=
  let walk := operand.reductionWalk axes
  let chunk := operand.coordinates walk.chunk
  let outer := operand.coordinates walk.outer
  operand.reduced t axes keep fun outside ↦
    outer.foldl (fun total coordinates ↦
      let elements := chunk.map fun inside ↦
        (operand.getAt (inside ++ coordinates ++ outside)).convert t
      if walk.chunk.isEmpty then addEach total elements else addChunk total elements) 0

end Strided

end Handover
