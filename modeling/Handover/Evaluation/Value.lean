import Handover.Attr.Lengths
import Handover.Graph.Basic
import Handover.Tensor.Arrangement

/-!
# Values of an evaluation

What a name stands for while a graph is evaluated (`Value`): an array, a scalar, which is what is
left of an array without dimensions once it is computed, a list or a tuple of values, or an
attribute value as it is. Splitting leaves a list of arrays, and an attribute may bring in any value
but an array (`Value.ofAttr`). Where several names are bound, each gets one part (`Value.parts`).
-/

set_option autoImplicit false
set_option relaxedAutoImplicit false

namespace Handover

/-- What a name stands for. -/
inductive Value
  | array (value : Strided)
  | scalar (value : Scalar)
  | list (items : List Value)
  | tuple (items : List Value)
  | plain (value : Attr)

namespace Value

instance : Inhabited Value := ⟨plain .null⟩

mutual

/-- An attribute value as a value. -/
def ofAttr : Attr → Value
  | .scalar value => scalar value
  | .list items => list (ofAttrs items)
  | .tuple items _ => tuple (ofAttrs items)
  | value => plain value

/-- Attribute values as values. -/
def ofAttrs : List Attr → List Value
  | [] => []
  | item :: rest => ofAttr item :: ofAttrs rest

end

/-- The element of a tensor as a scalar, the first if there are several. -/
def elementOf (tensor : Tensor) : Value := scalar ⟨tensor.elementType, tensor.elements.getD 0 0⟩

/-- The value of a computed tensor: a scalar if it has no dimensions. -/
def ofComputed (result : Strided) : Value :=
  if result.rank = 0 then elementOf result.tensor else array result

/-- Whether a value is an array. -/
def isArray : Value → Bool
  | array _ => true
  | _ => false

/-- Whether a value is a scalar. -/
def isScalar : Value → Bool
  | scalar _ => true
  | _ => false

/-- The integer that a value counts by: truth values count when they are plain. -/
def count? : Value → Option Int
  | plain (.int value) => some value
  | plain (.bool value) => some (if value then 1 else 0)
  | scalar value => Attr.whole? (.scalar value)
  | _ => none

/-- The parts of a value that several names are bound to, in order: the items of a collection, the
characters of a text, the keys of a record, or the rows of an array. -/
def parts : Value → Result (List Value)
  | array value => do return (← value.rows).map ofComputed
  | list items | tuple items => .ok items
  | plain (.text content) => .ok (content.toList.map fun c ↦ plain (.text (String.ofList [c])))
  | plain (.record fields) => .ok (fields.map fun field ↦ plain (.text field.1))
  | scalar _ | plain _ => fails .wrongKind

/-- An operand of an operator, or the flaw that there are too few. -/
def operand (operands : List Value) (slot : Nat) : Result Value :=
  match operands[slot]? with
  | some value => .ok value
  | none => fails .missingOperand

end Value

end Handover
