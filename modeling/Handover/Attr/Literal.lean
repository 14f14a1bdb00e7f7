import Handover.Error

/-!
# Attribute values as literals

How an attribute value is written in the generated module. `Attr.literal` is the literal of a value,
and `Attr.display` is the value as it shows in running text, where a text at the top has no quotes.
Both unwrap a scalar at the top, and fail where an integer has more digits than one may be written
with.
-/

set_option autoImplicit false
set_option relaxedAutoImplicit false

namespace Handover.Attr

/-- The literal of a value. -/
def literal (value : Attr) : Result String :=
  if value.unwrap.hasShortIntegers then .ok (String.ofList value.unwrap.literalCharacters)
  else fails .integerTooLong

theorem literal_eq_ok_iff {value : Attr} {text : String} :
    value.literal = .ok text ↔ value.unwrap.hasShortIntegers = true ∧
      String.ofList value.unwrap.literalCharacters = text := by
  unfold literal
  split
  · next hshort => simp [hshort]
  · next hlong => simp [hlong, fails]

/-- A value as it shows in running text: a text as it is, and anything else as its literal. -/
def display (value : Attr) : Result String :=
  match value with
  | text content => .ok content
  | value => value.literal

end Handover.Attr
