import Handover.Graph.Record

/-!
# Attribute values as integers

The integer that an attribute value stands for in the generated module (`Attr.toInteger`): a number
loses its fraction, and a text is read as a decimal integer, which may have blanks around it, a
sign, and single underscores between its digits.
-/

set_option autoImplicit false
set_option relaxedAutoImplicit false

namespace Handover

namespace Text

/-- The values of digits with single underscores between them. -/
def separatedDigits? : List Char → Option (List Nat)
  | [] => none
  | [c] => (digitValue? c).map fun digit ↦ [digit]
  | c :: '_' :: rest => do
    let digit ← digitValue? c
    return digit :: (← separatedDigits? rest)
  | c :: rest => do
    let digit ← digitValue? c
    return digit :: (← separatedDigits? rest)

/-- The text without the blanks on either side. -/
def strip (text : List Char) : List Char :=
  ((text.dropWhile isBlank).reverse.dropWhile isBlank).reverse

/-- The integer written by a text. -/
def integerOfText? (text : String) : Option Int :=
  let (negative, digits) := takeSign (strip text.toList)
  match separatedDigits? digits with
  | none => none
  | some digits =>
    if integerDigitLimit < digits.length then none
    else
      let value : Int := (digits.foldl (fun total digit ↦ 10 * total + digit) 0 : Nat)
      some (if negative then -value else value)

end Text

namespace Attr

/-- The integer part of a number. -/
def integerPart : BinaryNumber → Result Int
  | .nan => fails .integerOfNaN
  | .infinite _ => fails .integerOfInfinity
  | .finite negative mantissa exponent => .ok (BinaryNumber.truncate negative mantissa exponent)

/-- The integer that a value stands for. -/
def toInteger (value : Attr) : Result Int :=
  match value.unwrap with
  | bool value => .ok (if value then 1 else 0)
  | int value => .ok value
  | real value => integerPart value.toNumber
  | text content =>
    match Text.integerOfText? content with
    | some value => .ok value
    | none => fails .malformedInteger
  | _ => fails .wrongKind

/-- The integers that the items of a collection stand for. -/
def toIntegers (value : Attr) : Result (List Int) := do
  (← value.elements).mapM toInteger

end Attr

end Handover
