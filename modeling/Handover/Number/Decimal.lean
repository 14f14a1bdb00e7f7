import Handover.Number.Binary
import Handover.Text.CharacterClass

/-!
# Decimal numbers

A decimal number is a signed natural times a power of ten (`Decimal`). Its nearest word in a binary
format is found by one rounding of the exact quotient (`Decimal.toWord`), and numbers written in the
usual way, with a point, an exponent or both, are read by `realOfText?`.
-/

set_option autoImplicit false
set_option relaxedAutoImplicit false

namespace Handover

/-- The number `(-1)^negative · digits · 10^exponent`. -/
structure Decimal where
  negative : Bool
  digits : Nat
  exponent : Int
deriving DecidableEq, Repr

/-- The quotient `digits · 10^exponent` as a numerator and a denominator. -/
def scaleTen (digits : Nat) (exponent : Int) : Nat × Nat :=
  if 0 ≤ exponent then (digits * Nat.pow 10 exponent.toNat, 1)
  else (digits, Nat.pow 10 (-exponent).toNat)

/-- The decimal digits of a natural, the highest first. -/
def decimalDigits (value : Nat) : List Char := Nat.toDigits 10 value

/-- The value of a run of decimal digits. -/
def digitsValue (digits : List Char) : Nat :=
  digits.foldl (fun total c ↦ 10 * total + (c.toNat - 48)) 0

namespace Decimal

/-- The word of a binary format nearest to a decimal number. Numbers beyond `10^400` and below
`10^-400` are settled by their size alone, which no format of 64 bits or fewer can tell apart from
infinity and zero. -/
def toWord (format : BinaryFormat) (decimal : Decimal) : Nat :=
  let size : Int := ((decimalDigits decimal.digits).length : Int) + decimal.exponent
  if decimal.digits = 0 ∨ size < -400 then format.round decimal.negative 0 1
  else if 400 < size then format.encode (.infinite decimal.negative)
  else
    let scaled := scaleTen decimal.digits decimal.exponent
    format.round decimal.negative scaled.1 scaled.2

/-- The number written as whole digits, fraction digits and an exponent. -/
def ofParts (negative : Bool) (whole fraction : List Char) (exponent : Int) : Decimal :=
  ⟨negative, digitsValue (whole ++ fraction), exponent - (fraction.length : Int)⟩

end Decimal

/-! ### Numbers written in text -/

section Reading

/-- The most digits that an integer written in text may have. -/
def integerDigitLimit : Nat := 4300

/-- A sign, if there is one, and what follows it. -/
def takeSign : List Char → Bool × List Char
  | '-' :: rest => (true, rest)
  | '+' :: rest => (false, rest)
  | rest => (false, rest)

/-- The exponent after `e` or `E`, which runs to the end of the text. -/
def readExponent? : List Char → Option Int
  | [] => some 0
  | c :: rest =>
    if c = 'e' ∨ c = 'E' then
      let (negative, digits) := takeSign rest
      if digits.isEmpty || !digits.all Char.isDigit then none
      else if negative then some (-(digitsValue digits : Int))
      else some (digitsValue digits : Int)
    else none

/-- The fraction digits after a point, if there is one, and what follows them. -/
def takeFraction : List Char → List Char × List Char
  | '.' :: rest => (rest.takeWhile Char.isDigit, rest.dropWhile Char.isDigit)
  | rest => ([], rest)

/-- The decimal number written by an unsigned text. -/
def unsignedOfText? (negative : Bool) (text : List Char) : Option Decimal :=
  let whole := text.takeWhile Char.isDigit
  let (fraction, rest) := takeFraction (text.dropWhile Char.isDigit)
  if whole.isEmpty && fraction.isEmpty then none
  else (readExponent? rest).map (Decimal.ofParts negative whole fraction)

/-- The word of a binary format nearest to the number written by a text, `inf` and `nan`
included. -/
def realOfText? (format : BinaryFormat) (text : String) : Option Nat :=
  let (negative, rest) := takeSign text.toList
  if rest = ['i', 'n', 'f'] then some (format.encode (.infinite negative))
  else if rest = ['n', 'a', 'n'] then
    some ((if negative then format.signWord else 0) + format.nanWord)
  else (unsignedOfText? negative rest).map (Decimal.toWord format)

end Reading

end Handover
