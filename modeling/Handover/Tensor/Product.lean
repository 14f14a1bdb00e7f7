import Handover.Tensor.Elementwise
import Handover.Tensor.Summation

/-!
# Matrix products

The product of two tensors read as stacks of matrices in their last two dimensions
(`Tensor.product`). A tensor of one dimension is a row on the left and a column on the right, and
that dimension is left out of the result. Leading dimensions are aligned as in element-wise
operations.
-/

set_option autoImplicit false
set_option relaxedAutoImplicit false

namespace Handover.Tensor

/-- The dimensions of a left operand as leading dimensions, rows and columns. -/
def leftDimensions (shape : List Nat) : List Nat × Nat × Nat :=
  match shape.reverse with
  | [] => ([], 1, 1)
  | [columns] => ([], 1, columns)
  | columns :: rows :: leading => (leading.reverse, rows, columns)

/-- The dimensions of a right operand as leading dimensions, rows and columns. -/
def rightDimensions (shape : List Nat) : List Nat × Nat × Nat :=
  match shape.reverse with
  | [] => ([], 1, 1)
  | [rows] => ([], rows, 1)
  | columns :: rows :: leading => (leading.reverse, rows, columns)

/-- The product of two tensors as stacks of matrices. -/
def product (a b : Tensor) : Result Tensor :=
  if a.rank = 0 ∨ b.rank = 0 then fails .shapeMismatch
  else
    let (leadingA, rows, inner) := leftDimensions a.shape
    let (leadingB, innerB, columns) := rightDimensions b.shape
    if inner ≠ innerB then fails .shapeMismatch
    else
      match Shape.broadcast? leadingA leadingB with
      | none => fails .shapeMismatch
      | some leading =>
        let t := a.elementType.promote b.elementType
        let rowPart (row : Nat) : List Nat := if a.rank = 1 then [] else [row]
        let columnPart (column : Nat) : List Nat := if b.rank = 1 then [] else [column]
        let wide := chunkType t
        let entry (index : List Nat) : Word t :=
          let outer := index.take leading.length
          let own := index.drop leading.length
          let row := if a.rank = 1 then 0 else own.getD 0 0
          let column := if b.rank = 1 then 0 else own.getD (if a.rank = 1 then 0 else 1) 0
          let outerA := Shape.broadcastIndex leadingA outer
          let outerB := Shape.broadcastIndex leadingB outer
          let total : Word wide := (List.range inner).foldl (fun total k ↦
            let x := (a.get (outerA ++ rowPart row ++ [k])).convert wide
            let y := (b.get (outerB ++ [k] ++ columnPart column)).convert wide
            total.add (x.multiply y)) 0
          total.convert t
        .ok (tabulate t (leading ++ rowPart rows ++ columnPart columns) entry)

end Handover.Tensor
