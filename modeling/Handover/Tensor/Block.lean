import Handover.Error
import Handover.Tensor.Basic

/-!
# Blocks

A box of a given shape with an element at each index, of whatever type (`Block`). Cutting a block
along a dimension and joining blocks along one move elements and look at none of them, so both are
the same for every type. Dimensions and cut points may be counted from the end by negative numbers.
-/

set_option autoImplicit false
set_option relaxedAutoImplicit false

namespace Handover

/-- The dimension that a number counts from the front, or from the end when it is negative. -/
def Shape.dimension? (rank : Nat) (axis : Int) : Option Nat :=
  let shifted := if axis < 0 then axis + (rank : Int) else axis
  if 0 ≤ shifted ∧ shifted < (rank : Int) then some shifted.toNat else none

/-- A box with an element at each index. -/
structure Block (α : Type) where
  shape : List Nat
  get : List Nat → α

namespace Block

variable {α : Type}

/-! ### Cutting -/

/-- The place that a cut point counts from the front, or from the end when it is negative, kept
between the ends of a dimension. -/
def cutPlace (length : Nat) (point : Int) : Nat :=
  let shifted := if point < 0 then point + (length : Int) else point
  min shifted.toNat length

/-- The part of a block between two places along a dimension. -/
def slice (block : Block α) (axis start stop : Nat) : Block α where
  shape := block.shape.set axis (stop - start)
  get index := block.get (index.set axis (index.getD axis 0 + start))

/-- The pieces of a block between consecutive cut points along a dimension, the first from the start
and the last to a given end. -/
def cut (block : Block α) (axis : Nat) (points : List Int) (stop : Nat) : List (Block α) :=
  let length := block.shape.getD axis 0
  let places := points.map (cutPlace length)
  (List.zip (0 :: places) (places ++ [min stop length])).map fun ends ↦
    block.slice axis ends.1 ends.2

/-! ### Joining -/

/-- The element of the first block that reaches a coordinate along a dimension. -/
def find [Inhabited α] (axis : Nat) : List (Block α) → List Nat → α
  | [], _ => default
  | block :: rest, index =>
    let length := block.shape.getD axis 0
    let coordinate := index.getD axis 0
    if coordinate < length then block.get index
    else find axis rest (index.set axis (coordinate - length))

/-- Several blocks joined along a dimension. All must have that dimension and agree in the lengths
of the others. -/
def concatenate [Inhabited α] (blocks : List (Block α)) (axis : Int) : Result (Block α) :=
  match blocks with
  | [] => fails .shapeMismatch
  | first :: _ =>
    if first.shape.length = 0 then fails .shapeMismatch
    else
      match Shape.dimension? first.shape.length axis with
      | none => fails .axisOutOfRange
      | some axis =>
        if blocks.all fun block ↦ block.shape.set axis 0 = first.shape.set axis 0 then
          let length := blocks.foldl (fun length block ↦ length + block.shape.getD axis 0) 0
          .ok { shape := first.shape.set axis length, get := find axis blocks }
        else fails .shapeMismatch

end Block

end Handover
