import Handover.Tensor.Block
import Handover.Tensor.Layout

/-!
# Rearranging tensors

Operations that move elements and compute nothing: reversing or exchanging dimensions, giving the
elements another shape, and cutting tensors and joining them as blocks of their elements.
`Strided.concatenate` brings its parts to one element type first. All but joining leave the elements
where they stand in memory, if the strides of the result can say so, and keep the order of their
bytes.
-/

set_option autoImplicit false
set_option relaxedAutoImplicit false

namespace Handover

namespace Shape

/-- The list with the items at two places exchanged. -/
def exchange (first second : Nat) (items : List Nat) : List Nat :=
  (items.set first (items.getD second 0)).set second (items.getD first 0)

/-- The most bytes, and so the most elements, that a tensor may have. -/
def byteLimit : Nat := Nat.pow 2 63 - 1

/-- Whether a box of elements of some bytes each stays under the limit even if no dimension were
empty. -/
def fits (byteCount : Nat) (shape : List Nat) : Bool :=
  byteCount * size (shape.filter fun length ↦ length != 0) ≤ byteLimit

/-- The product of the lengths that are not left open, formed in order. It may not pass the limit on
the way, even if a later length is zero. -/
def knownSize? (lengths : List Int) : Option Nat :=
  lengths.foldlM (fun known length ↦
    if length < 0 then some known
    else
      let next := known * length.toNat
      if byteLimit < next then none else some next) 1

/-- The shape that a list of lengths asks for, where one length may be left open as a negative
number and is then what the other lengths leave over. -/
def resolve? (count : Nat) (lengths : List Int) : Option (List Nat) := do
  let isOpen (length : Int) : Bool := length < 0
  let known ← knownSize? lengths
  match (lengths.filter isOpen).length with
  | 0 => if known = count then some (lengths.map Int.toNat) else none
  | 1 =>
    if known = 0 ∨ count % known ≠ 0 then none
    else some (lengths.map fun length ↦ if isOpen length then count / known else length.toNat)
  | _ => none

end Shape

namespace Tensor

/-- The elements of a tensor at their indices. -/
def block (tensor : Tensor) : Block (Word tensor.elementType) where
  shape := tensor.shape
  get := tensor.get

/-- The elements of a tensor at their indices as words of a type. Only those of another type are
converted. -/
def blockAs (t : ElementType) (tensor : Tensor) : Block (Word t) where
  shape := tensor.shape
  get index :=
    let word := tensor.get index
    if tensor.elementType = t then Word.ofBits t word.toNat else word.convert t

/-- The tensor of the elements of a block. -/
def ofBlock (t : ElementType) (block : Block (Word t)) : Tensor := tabulate t block.shape block.get

end Tensor

/-! ### Strides of another shape -/

namespace Shape

/-- A dimension with its stride. -/
abbrev StridedLength : Type := Nat × Nat

/-- The fewest leading dimensions of two boxes that hold equally many elements, with what is left of
both: some are taken already from the old box and from the new one, and count so many elements. -/
def matchedLead (taken : List StridedLength) (count : Nat) (made : List Nat) (madeCount : Nat) :
    Nat → List StridedLength → List Nat →
      Option (List StridedLength × List StridedLength × List Nat × List Nat)
  | 0, _, _ => none
  | fuel + 1, old, new =>
    if count = madeCount then some (taken, old, made, new)
    else if madeCount < count then
      match new with
      | [] => none
      | length :: new =>
        matchedLead taken count (made ++ [length]) (madeCount * length) fuel old new
    else
      match old with
      | [] => none
      | entry :: old =>
        matchedLead (taken ++ [entry]) (count * entry.1) made madeCount fuel old new

/-- Whether dimensions stand one right inside the other. -/
def isNested : List StridedLength → Bool
  | outer :: inner :: rest => outer.2 == inner.1 * inner.2 && isNested (inner :: rest)
  | _ => true

/-- The strides by which a box is read in another shape where its elements stand, if they can be.
None of the old dimensions has length one. -/
def viewStrides? : Nat → List StridedLength → List Nat → Option (List Nat)
  | 0, _, _ => none
  | _, [], new => some (new.map fun _ ↦ 1)
  | _, _, [] => some []
  | fuel + 1, entry :: old, length :: new => do
    let bound := old.length + new.length + 1
    let (taken, old, made, new) ← matchedLead [entry] entry.1 [length] length bound old new
    if !isNested taken then none
    let stride := (taken.getLast?.map Prod.snd).getD 1
    let rest ← viewStrides? fuel old new
    return (strides made).map (stride * ·) ++ rest

end Shape

namespace Strided

variable (operand : Strided)

/-- The tensor with its dimensions in reverse order. -/
def reverseDimensions : Strided :=
  let tensor := operand.tensor
  { operand with
    tensor := Tensor.tabulate tensor.elementType tensor.shape.reverse fun index ↦
      tensor.get index.reverse
    strides := operand.strides.reverse }

/-- The tensor with two dimensions exchanged. -/
def exchangeDimensions (first second : Nat) : Strided :=
  let tensor := operand.tensor
  { operand with
    tensor := Tensor.tabulate tensor.elementType (Shape.exchange first second tensor.shape)
      fun index ↦ tensor.get (Shape.exchange first second index)
    strides := Shape.exchange first second operand.strides }

/-- The strides of the elements in another shape: where they stand if they can be read so, and
otherwise row by row. -/
def stridesAs (shape : List Nat) : List Nat :=
  let long := (operand.tensor.shape.zip operand.strides).filter fun entry ↦ entry.1 ≠ 1
  if Shape.size shape = 0 then Shape.strides shape
  else (Shape.viewStrides? (shape.length + 1) long shape).getD (Shape.strides shape)

/-- The tensor with the same elements in the shape that a list of lengths asks for. -/
def reshape (lengths : List Int) : Result Strided :=
  let tensor := operand.tensor
  match (Shape.resolve? tensor.elements.size lengths).bind tensor.withShape? with
  | some reshaped =>
    if Shape.fits tensor.elementType.byteCount reshaped.shape then
      .ok { operand with tensor := reshaped, strides := operand.stridesAs reshaped.shape }
    else fails .shapeMismatch
  | none => fails .shapeMismatch

/-! ### Cutting -/

/-- The pieces of the tensor between consecutive cut points along a dimension, the first from the
start and the last to a given end. -/
def cut (axis : Nat) (points : List Int) (stop : Nat) : List Strided :=
  (operand.tensor.block.cut axis points stop).map fun piece ↦
    { operand with tensor := .ofBlock operand.tensor.elementType piece }

/-- The rows of a tensor: its parts along the first dimension, without that dimension. -/
def rows : Result (List Strided) :=
  let tensor := operand.tensor
  match tensor.shape with
  | [] => fails .wrongKind
  | length :: shape =>
    .ok ((List.range length).map fun row ↦
      { operand with
        tensor := Tensor.tabulate tensor.elementType shape fun index ↦ tensor.get (row :: index)
        strides := operand.strides.tail })

/-! ### Joining -/

/-- The element type that several tensors are brought to. -/
def commonType : List Strided → ElementType
  | [] => .bool
  | first :: rest => ElementType.promoteAll first.tensor.elementType
      (rest.map fun part ↦ part.tensor.elementType)

/-- Several tensors joined along a dimension. All must have that dimension and agree in the lengths
of the others. -/
def concatenate (parts : List Strided) (axis : Int) : Result Strided := do
  let t := commonType parts
  let joined ← Block.concatenate (parts.map fun part ↦ part.tensor.blockAs t) axis
  return following (.ofBlock t joined) parts

/-- The tensor with its elements in one dimension. -/
def flatten : Strided :=
  let tensor := operand.tensor
  ofTensor { tensor with shape := [tensor.elements.size], size_eq := by simp [Shape.size] }

end Strided

end Handover
