import Handover.Number.Decimal

/-!
# Numerals

How the numbers of a binary format are written. `shortestDecimal` finds the decimal number with the
fewest digits that rounds back to the word, the nearest of those, and `shortestNumeral` writes it:
positionally from `10^-4` up to a power of ten that the format sets, always with a digit on either
side of the point, and otherwise with an exponent of at least two digits. `significantNumeral` keeps
a given number of significant digits of the exact value, a half going to the even digit, and drops
the zeros that end the fraction.
-/

set_option autoImplicit false
set_option relaxedAutoImplicit false

namespace Handover

/-! ### Decimal exponents -/

section Exponents

/-- Whether `10^exponent ≤ num / den`. -/
def powerOfTenAtMost (num den : Nat) (exponent : Int) : Bool :=
  let power := scaleTen 1 exponent
  decide (power.1 * den ≤ num * power.2)

/-- The greatest `e` with `10^e ≤ num / den`, for positive `num` and `den`. The binary logarithm
gives it to within one. -/
def floorLog10 (num den : Nat) : Int :=
  let estimate : Int := floorLog2 num den * 30103 / 100000
  if powerOfTenAtMost num den (estimate + 1) then estimate + 1
  else if powerOfTenAtMost num den estimate then estimate
  else estimate - 1

/-- The quotient `num / (den · 10^place)` as a numerator and a denominator. -/
def scaleToPlace (num den : Nat) (place : Int) : Nat × Nat :=
  let power := scaleTen 1 place
  (num * power.2, den * power.1)

end Exponents

/-! ### The fewest digits that read back -/

section Shortest

/-- The neighbour of `num / den` among the multiples of `10^place` that rounds to `word`, the nearer
when both do. -/
def neighbourAt? (format : BinaryFormat) (word num den : Nat) (place : Int) : Option Decimal :=
  let scaled := scaleToPlace num den place
  let below := scaled.1 / scaled.2
  let readsBack (digits : Nat) : Bool := Decimal.toWord format ⟨false, digits, place⟩ == word
  let nearer := roundHalfEven scaled.1 scaled.2
  let other := if nearer = below then below + 1 else below
  if readsBack nearer then some ⟨false, nearer, place⟩
  else if readsBack other then some ⟨false, other, place⟩
  else none

/-- The number `mantissa · 2^exponent` written out in full. -/
def exactDecimal (mantissa : Nat) (exponent : Int) : Decimal :=
  if 0 ≤ exponent then ⟨false, mantissa * Nat.pow 2 exponent.toNat, 0⟩
  else ⟨false, mantissa * Nat.pow 5 (-exponent).toNat, exponent⟩

/-- The decimal number with the fewest digits that rounds to the word of the positive number
`mantissa · 2^exponent`, the nearest of those. Seventeen digits tell all words of 64 bits apart. -/
def shortestDecimal (format : BinaryFormat) (mantissa : Nat) (exponent : Int) : Decimal :=
  let exact := scaleDown mantissa 1 (-exponent)
  let word := format.roundQuotient exact.1 exact.2
  let lead := floorLog10 exact.1 exact.2
  let attempt (count : Nat) : Option Decimal :=
    neighbourAt? format word exact.1 exact.2 (lead - (count : Int))
  ((List.range 17).findSome? attempt).getD (exactDecimal mantissa exponent)

end Shortest

/-! ### Layout -/

section Layout

/-- The digits without the zeros that end them. -/
def dropFinalZeros (digits : List Char) : List Char :=
  (digits.reverse.dropWhile (· == '0')).reverse

/-- The number `0.d₁d₂… · 10^point` written positionally, with at least one digit after the
point. -/
def positional (digits : List Char) (point : Int) : List Char :=
  if point ≤ 0 then '0' :: '.' :: (List.replicate (-point).toNat '0' ++ digits)
  else
    let whole := digits.take point.toNat
    let fraction := digits.drop point.toNat
    whole ++ List.replicate (point.toNat - digits.length) '0' ++
      ('.' :: if fraction.isEmpty then ['0'] else fraction)

/-- An exponent with its sign and at least two digits. -/
def exponentText (exponent : Int) : List Char :=
  let digits := decimalDigits exponent.natAbs
  'e' :: (if exponent < 0 then '-' else '+') ::
    (if digits.length < 2 then '0' :: digits else digits)

/-- The number `d₁.d₂… · 10^exponent` written with an exponent. -/
def scientific (digits : List Char) (exponent : Int) : List Char :=
  let lead := digits.take 1
  let fraction := digits.drop 1
  lead ++ (if fraction.isEmpty then [] else '.' :: fraction) ++ exponentText exponent

/-- The power of ten from which the numbers of a format are written with an exponent: narrow formats
tell few whole numbers apart, and the zeros that would pad them out mean nothing. -/
def BinaryFormat.positionalLimit (format : BinaryFormat) : Int :=
  if format = .half then 3 else if format = .single then 6 else 16

/-- The magnitude of a finite number in the fewest digits that read back. -/
def shortestMagnitude (format : BinaryFormat) (mantissa : Nat) (exponent : Int) : List Char :=
  if mantissa = 0 then ['0', '.', '0']
  else
    let exact := scaleDown mantissa 1 (-exponent)
    let decimal := shortestDecimal format mantissa exponent
    let written := decimalDigits decimal.digits
    let point : Int := (written.length : Int) + decimal.exponent
    let digits := dropFinalZeros written
    let reaches (power : Int) : Bool := powerOfTenAtMost exact.1 exact.2 power
    if reaches (-4) && !reaches format.positionalLimit then positional digits point
    else scientific digits (point - 1)

/-- A number of a binary format in the fewest digits that read back. -/
def shortestNumeral (format : BinaryFormat) : BinaryNumber → String
  | .nan => "nan"
  | .infinite negative => if negative then "-inf" else "inf"
  | .finite negative mantissa exponent =>
    let magnitude := shortestMagnitude format mantissa exponent
    String.ofList (if negative then '-' :: magnitude else magnitude)

/-- The magnitude of a positive number in `precision` significant digits. The exponent decides the
layout after the rounding, which may reach the next power of ten. -/
def significantMagnitude (precision : Nat) (mantissa : Nat) (exponent : Int) : List Char :=
  let exact := scaleDown mantissa 1 (-exponent)
  let lead := floorLog10 exact.1 exact.2
  let scaled := scaleToPlace exact.1 exact.2 (lead - (precision : Int) + 1)
  let rounded := decimalDigits (roundHalfEven scaled.1 scaled.2)
  let final : Int := if precision < rounded.length then lead + 1 else lead
  let digits := dropFinalZeros rounded
  if final < -4 ∨ (precision : Int) ≤ final then scientific digits final
  else if (digits.length : Int) ≤ final + 1 then
    digits ++ List.replicate (final + 1 - (digits.length : Int)).toNat '0'
  else positional digits (final + 1)

/-- A number in at most `precision` significant digits; a zero of either sign is `0`. -/
def significantNumeral (precision : Nat) : BinaryNumber → String
  | .nan => "nan"
  | .infinite negative => if negative then "-inf" else "inf"
  | .finite negative mantissa exponent =>
    if mantissa = 0 then "0"
    else
      let magnitude := significantMagnitude precision mantissa exponent
      String.ofList (if negative then '-' :: magnitude else magnitude)

end Layout

end Handover
