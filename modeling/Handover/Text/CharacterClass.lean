import Handover.Text.IdentifierTable
import Handover.Text.PrintableTable

/-!
# Character classes

The character properties that names, quoted text and integer text depend on: which characters may
begin or follow in an identifier (`isIdentifierStart`, `isIdentifierContinue`), which are shown as
they are between quotes (`isPrintable`), which denote a decimal digit (`digitValue?`) and which
count as blank (`isBlank`). ASCII is decided by rule and the rest by tables of Unicode 14.
-/

set_option autoImplicit false
set_option relaxedAutoImplicit false

namespace Handover.Text

/-- Membership in an inversion list: a code point is inside when an odd number of boundaries lie at
or below it. -/
def insideBounds (bounds : Array Nat) (code : Nat) : Bool :=
  bounds.foldl (fun inside bound ↦ if bound ≤ code then !inside else inside) false

/-- Whether a character may begin an identifier. -/
def isIdentifierStart (c : Char) : Bool :=
  if c.toNat < 128 then c.isAlpha || c == '_' else insideBounds startBounds c.toNat

/-- Whether a character may follow in an identifier. -/
def isIdentifierContinue (c : Char) : Bool :=
  if c.toNat < 128 then c.isAlphanum || c == '_' else insideBounds continueBounds c.toNat

/-- Whether a quoted text shows the character as it is. -/
def isPrintable (c : Char) : Bool :=
  if c.toNat < 128 then 32 ≤ c.toNat && c.toNat < 127 else insideBounds printableBounds c.toNat

/-- The zero of every run of ten decimal digits above ASCII. -/
def digitZeros : List Nat := [
  1632, 1776, 1984, 2406, 2534, 2662, 2790, 2918, 3046, 3174, 3302, 3430, 3558, 3664, 3792, 3872,
  4160, 4240, 6112, 6160, 6470, 6608, 6784, 6800, 6992, 7088, 7232, 7248, 42528, 43216, 43264,
  43472, 43504, 43600, 44016, 65296, 66720, 68912, 69734, 69872, 69942, 70096, 70384, 70736,
  70864, 71248, 71360, 71472, 71904, 72016, 72784, 73040, 73120, 92768, 92864, 93008, 120782,
  120792, 120802, 120812, 120822, 123200, 123632, 125264, 130032]

/-- The value of a decimal digit of any script. -/
def digitValue? (c : Char) : Option Nat :=
  if c.toNat < 128 then
    if c.isDigit then some (c.toNat - 48) else none
  else
    (digitZeros.find? fun first ↦ first ≤ c.toNat && c.toNat < first + 10).map (c.toNat - ·)

/-- Whether a character is a blank of ASCII text: space, tab, line feed, vertical tab, form feed or
carriage return. -/
def isPlainBlank (c : Char) : Bool :=
  c == ' ' || (9 ≤ c.toNat && c.toNat ≤ 13)

/-- Whether a character is a blank of any script: a blank of ASCII text, the next-line character or
a space separator. -/
def isBlank (c : Char) : Bool :=
  isPlainBlank c || c.toNat == 133 || c.toNat == 160 || c.toNat == 5760 ||
    (8192 ≤ c.toNat && c.toNat ≤ 8202) || c.toNat == 8232 || c.toNat == 8233 ||
    c.toNat == 8239 || c.toNat == 8287 || c.toNat == 12288

end Handover.Text
