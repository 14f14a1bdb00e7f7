/-!
# Binary floating-point formats

A binary interchange format keeps a sign, a biased exponent and a fraction in one word
(`BinaryFormat`, with `half`, `single` and `double`). `BinaryFormat.decode` reads the number a word
stands for as an exact value `(-1)^s · m · 2^e` (`BinaryNumber`), and `BinaryFormat.round` gives the
word nearest to a quotient of naturals, a tie going to the even word and an overflow to infinity.
Sums, differences and products of decoded numbers are exact, so that `encode` after them rounds
once; quotients and square roots round as they are formed (`divide`, `squareRoot`).
-/

set_option autoImplicit false
set_option relaxedAutoImplicit false

namespace Handover

/-- A binary interchange format, by the widths of its exponent and fraction fields. -/
structure BinaryFormat where
  exponentWidth : Nat
  fractionWidth : Nat
deriving DecidableEq, Repr

/-- The number a word of a binary format stands for: `finite s m e` is `(-1)^s · m · 2^e`. -/
inductive BinaryNumber
  | nan
  | infinite (negative : Bool)
  | finite (negative : Bool) (mantissa : Nat) (exponent : Int)
deriving DecidableEq, Repr, Inhabited

/-! ### Rounding of quotients -/

section Rounding

/-- The natural nearest to `num / den`, a tie going to the even neighbour. -/
def roundHalfEven (num den : Nat) : Nat :=
  let quotient := num / den
  let remainder := num % den
  if 2 * remainder < den then quotient
  else if 2 * remainder = den ∧ quotient % 2 = 0 then quotient
  else quotient + 1

/-- The quotient `num / (den · 2^exponent)` as a numerator and a denominator. -/
def scaleDown (num den : Nat) (exponent : Int) : Nat × Nat :=
  if 0 ≤ exponent then (num, den * Nat.pow 2 exponent.toNat)
  else (num * Nat.pow 2 (-exponent).toNat, den)

/-- The greatest `e` with `2^e ≤ num / den`, for positive `num` and `den`. -/
def floorLog2 (num den : Nat) : Int :=
  let estimate : Int := (Nat.log2 num : Int) - (Nat.log2 den : Int)
  let scaled := scaleDown num den estimate
  if scaled.2 ≤ scaled.1 then estimate else estimate - 1

/-- The integer part of the square root of a natural. -/
def integerSquareRoot (n : Nat) : Nat :=
  if n = 0 then 0
  else
    let root := 2 * integerSquareRoot (n / 4)
    if (root + 1) * (root + 1) ≤ n then root + 1 else root
termination_by n
decreasing_by omega

end Rounding

namespace BinaryFormat

/-- The 16-bit format. -/
def half : BinaryFormat := ⟨5, 10⟩

/-- The 32-bit format. -/
def single : BinaryFormat := ⟨8, 23⟩

/-- The 64-bit format. -/
def double : BinaryFormat := ⟨11, 52⟩

variable (format : BinaryFormat)

/-- The bits of a word. -/
def width : Nat := 1 + format.exponentWidth + format.fractionWidth

/-- The exponent of the last place of the least numbers of the format. -/
def minExponent : Int :=
  2 - Int.pow 2 (format.exponentWidth - 1) - (format.fractionWidth : Int)

/-- The word that holds the sign alone. -/
def signWord : Nat := Nat.pow 2 (format.exponentWidth + format.fractionWidth)

/-- The word of positive infinity. -/
def infinityWord : Nat :=
  (Nat.pow 2 format.exponentWidth - 1) * Nat.pow 2 format.fractionWidth

/-- The word of the positive quiet not-a-number with an empty payload. -/
def nanWord : Nat := format.infinityWord + Nat.pow 2 (format.fractionWidth - 1)

/-! ### Words and numbers -/

/-- The number a word stands for. -/
def decode (word : Nat) : BinaryNumber :=
  let negative := decide (format.signWord ≤ word)
  let magnitude := word % format.signWord
  let field := magnitude / Nat.pow 2 format.fractionWidth
  let fraction := magnitude % Nat.pow 2 format.fractionWidth
  if field = Nat.pow 2 format.exponentWidth - 1 then
    if fraction = 0 then .infinite negative else .nan
  else if field = 0 then .finite negative fraction format.minExponent
  else .finite negative (Nat.pow 2 format.fractionWidth + fraction)
    (format.minExponent + (field : Int) - 1)

/-- The word of the number nearest to `num / den`, a tie going to the even word and an overflow to
infinity. The last place of the result has exponent `e`, and adding the rounded significand to the
shifted exponent field carries into it when the rounding reaches the next power of two. -/
def roundQuotient (num den : Nat) : Nat :=
  if num = 0 then 0
  else
    let exponent := max format.minExponent (floorLog2 num den - (format.fractionWidth : Int))
    let scaled := scaleDown num den exponent
    min format.infinityWord
      ((exponent - format.minExponent).toNat * Nat.pow 2 format.fractionWidth +
        roundHalfEven scaled.1 scaled.2)

/-- The word nearest to `(-1)^negative · num / den`. -/
def round (negative : Bool) (num den : Nat) : Nat :=
  (if negative then format.signWord else 0) + format.roundQuotient num den

/-- The word nearest to `(-1)^negative · num / den · 2^exponent`. -/
def roundScaled (negative : Bool) (num den : Nat) (exponent : Int) : Nat :=
  let scaled := scaleDown num den (-exponent)
  format.round negative scaled.1 scaled.2

/-- The word nearest to a number. -/
def encode : BinaryNumber → Nat
  | .nan => format.nanWord
  | .infinite negative => (if negative then format.signWord else 0) + format.infinityWord
  | .finite negative mantissa exponent => format.roundScaled negative mantissa 1 exponent

/-- The word nearest to an integer. -/
def ofInt (value : Int) : Nat := format.round (decide (value < 0)) value.natAbs 1

/-- A word of one format as a word of another. A number goes to its nearest word. The payload of a
not-a-number keeps its leading bits; between the two wider formats it is made quiet, and into or out
of the narrowest one it stays as it is unless it would vanish. -/
def convert (target : BinaryFormat) (word : Nat) : Nat :=
  match format.decode word with
  | .nan =>
    let sign := if format.signWord ≤ word then target.signWord else 0
    let payload := word % Nat.pow 2 format.fractionWidth
    let moved :=
      if format.fractionWidth ≤ target.fractionWidth then
        payload * Nat.pow 2 (target.fractionWidth - format.fractionWidth)
      else payload / Nat.pow 2 (format.fractionWidth - target.fractionWidth)
    let quieted :=
      if format = target then payload
      else if format = half ∨ target = half then (if moved = 0 then 1 else moved)
      else moved ||| Nat.pow 2 (target.fractionWidth - 1)
    sign + target.infinityWord + quieted
  | number => target.encode number

end BinaryFormat

namespace BinaryNumber

/-! ### Exact arithmetic -/

/-- Zero, with a sign. -/
def zero (negative : Bool) : BinaryNumber := .finite negative 0 0

/-- Whether the number is a zero of either sign. -/
def isZero : BinaryNumber → Bool
  | finite _ mantissa _ => mantissa == 0
  | _ => false

/-- The number with the opposite sign. -/
def negate : BinaryNumber → BinaryNumber
  | nan => nan
  | infinite negative => infinite !negative
  | finite negative mantissa exponent => finite (!negative) mantissa exponent

/-- The signed significand of a finite number over the place `2^base`, for `base ≤ exponent`. -/
def significandAt (negative : Bool) (mantissa : Nat) (exponent base : Int) : Int :=
  let magnitude : Int := (mantissa : Int) * Int.pow 2 (exponent - base).toNat
  if negative then -magnitude else magnitude

/-- The exact sum. A sum that vanishes is negative only when both terms are. -/
def add : BinaryNumber → BinaryNumber → BinaryNumber
  | nan, _ => nan
  | _, nan => nan
  | infinite a, infinite b => if a = b then infinite a else nan
  | infinite a, finite _ _ _ => infinite a
  | finite _ _ _, infinite b => infinite b
  | finite negA mA eA, finite negB mB eB =>
    let base := min eA eB
    let sum := significandAt negA mA eA base + significandAt negB mB eB base
    if sum = 0 then zero (negA && negB) else finite (decide (sum < 0)) sum.natAbs base

/-- The exact difference. -/
def subtract (a b : BinaryNumber) : BinaryNumber := a.add b.negate

/-- The exact product. -/
def multiply : BinaryNumber → BinaryNumber → BinaryNumber
  | nan, _ => nan
  | _, nan => nan
  | infinite a, infinite b => infinite (a != b)
  | infinite a, finite b m _ => if m = 0 then nan else infinite (a != b)
  | finite a m _, infinite b => if m = 0 then nan else infinite (a != b)
  | finite a mA eA, finite b mB eB => finite (a != b) (mA * mB) (eA + eB)

/-- Whether the first number is at most the second; a not-a-number compares with nothing. -/
def le : BinaryNumber → BinaryNumber → Bool
  | nan, _ => false
  | _, nan => false
  | infinite a, infinite b => a || !b
  | infinite a, finite _ _ _ => a
  | finite _ _ _, infinite b => !b
  | finite negA mA eA, finite negB mB eB =>
    let base := min eA eB
    decide (significandAt negA mA eA base ≤ significandAt negB mB eB base)

/-- Whether two numbers are equal; a not-a-number equals nothing. -/
def equals (a b : BinaryNumber) : Bool := a.le b && b.le a

/-- The integer part, toward zero, of a finite number. -/
def truncate (negative : Bool) (mantissa : Nat) (exponent : Int) : Int :=
  let magnitude : Nat :=
    if 0 ≤ exponent then mantissa * Nat.pow 2 exponent.toNat
    else mantissa / Nat.pow 2 (-exponent).toNat
  if negative then -(magnitude : Int) else (magnitude : Int)

end BinaryNumber

namespace BinaryFormat

/-! ### Operations that round as they are formed -/

variable (format : BinaryFormat)

/-- The word nearest to a quotient. A finite number over zero is infinite. -/
def divide : BinaryNumber → BinaryNumber → Nat
  | .nan, _ => format.nanWord
  | _, .nan => format.nanWord
  | .infinite _, .infinite _ => format.nanWord
  | .infinite a, .finite b _ _ => format.encode (.infinite (a != b))
  | .finite a _ _, .infinite b => format.encode (.zero (a != b))
  | .finite a mA eA, .finite b mB eB =>
    if mB = 0 then
      if mA = 0 then format.nanWord else format.encode (.infinite (a != b))
    else format.roundScaled (a != b) mA mB (eA - eB)

/-- The word nearest to a square root. The significand is widened until its root has more bits than
the format keeps, and a last bit records whether anything was left over, so that one rounding
suffices. -/
def squareRoot : BinaryNumber → Nat
  | .nan => format.nanWord
  | .infinite negative => if negative then format.nanWord else format.infinityWord
  | .finite negative mantissa exponent =>
    if mantissa = 0 then format.encode (.finite negative 0 0)
    else if negative then format.nanWord
    else
      let spare := 2 * (format.fractionWidth + 4)
      let shift : Nat := if (exponent - (spare : Int)) % 2 = 0 then spare else spare + 1
      let widened := mantissa * Nat.pow 2 shift
      let root := integerSquareRoot widened
      let sticky := if root * root = widened then 2 * root else 2 * root + 1
      format.roundScaled false sticky 1 ((exponent - (shift : Int)) / 2 - 1)

end BinaryFormat

end Handover
