import Handover.Error

/-!
# Attribute values as lengths

The lengths of a shape that an attribute value lists (`Attr.asLengths`). Only integers are lengths;
a truth value is none. A shape has a bounded number of lengths, which is checked before any of them
is read.
-/

set_option autoImplicit false
set_option relaxedAutoImplicit false

namespace Handover.Attr

/-- The integer that a value is, if it is one; a truth value is none. -/
def whole? : Attr → Option Int
  | int value => some value
  | scalar value =>
    match value.elementType.kind with
    | .integer _ _ => some value.word.toInt
    | _ => none
  | _ => none

/-- The most dimensions that a tensor may have. -/
def dimensionLimit : Nat := 64

/-- A length of a shape. -/
def asLength (value : Attr) : Result Int :=
  match value.whole? with
  | none => fails .wrongKind
  | some length => if ElementType.int64.holds length then .ok length else fails .shapeMismatch

/-- The lengths that the items of a collection are. -/
def itemLengths (items : List Attr) : Result (List Int) :=
  if dimensionLimit < items.length then fails .shapeMismatch else items.mapM asLength

/-- The lengths of a shape: one integer, or a collection of integers. Nothing asks for the shape
that is there. -/
def asLengths (value : Attr) : Result (Option (List Int)) :=
  match value with
  | null => .ok none
  | text content =>
    if content.isEmpty then .ok (some [])
    else if dimensionLimit < content.length then fails .shapeMismatch
    else fails .wrongKind
  | list items => do return some (← itemLengths items)
  | tuple items _ => do return some (← itemLengths items)
  | value => do return some [← value.asLength]

end Handover.Attr
