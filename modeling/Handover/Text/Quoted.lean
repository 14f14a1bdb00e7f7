import Handover.Text.CharacterClass

/-!
# Quoted text

How a text is written as a literal on one line (`quote`): between single quotes, or between double
quotes when it holds single quotes and no double ones. The quote in use and the backslash are
escaped by a backslash, tab, line feed and carriage return have letters, and every other character
that is not printable is written as its code point in two, four or eight hexadecimal digits.
`quoteAscii` writes every character above ASCII in that way too.
-/

set_option autoImplicit false
set_option relaxedAutoImplicit false

namespace Handover.Text

/-- The lower-case hexadecimal digit of a value below sixteen. -/
def hexDigit (value : Nat) : Char := Nat.digitChar (value % 16)

/-- The last `width` hexadecimal digits of a number, the highest first. -/
def hexDigits : Nat → Nat → List Char
  | 0, _ => []
  | width + 1, value => hexDigits width (value / 16) ++ [hexDigit value]

/-- The quote a text is written between. -/
def quoteFor (characters : List Char) : Char :=
  if characters.contains '\x27' && !characters.contains '\x22' then '\x22' else '\x27'

/-- The escape that shows a code point in two, four or eight hexadecimal digits. -/
def escapeCode (code : Nat) : List Char :=
  if code < 256 then '\\' :: 'x' :: hexDigits 2 code
  else if code < 65536 then '\\' :: 'u' :: hexDigits 4 code
  else '\\' :: 'U' :: hexDigits 8 code

/-- One character between the quotes `mark`, where `shown` says which characters appear as they
are. -/
def escapeCharacter (shown : Char → Bool) (mark c : Char) : List Char :=
  if c = mark ∨ c = '\\' then ['\\', c]
  else if c = '\t' then ['\\', 't']
  else if c = '\n' then ['\\', 'n']
  else if c = '\r' then ['\\', 'r']
  else if shown c then [c]
  else escapeCode c.toNat

/-- A quoted text in which exactly the characters that are `shown` appear as they are. -/
def quoteWith (shown : Char → Bool) (text : String) : String :=
  let mark := quoteFor text.toList
  String.ofList (mark :: text.toList.flatMap (escapeCharacter shown mark) ++ [mark])

/-- A text as a literal on one line. -/
def quote (text : String) : String := quoteWith isPrintable text

/-- A text as a literal on one line in ASCII. -/
def quoteAscii (text : String) : String :=
  quoteWith (fun c ↦ decide (c.toNat < 128) && isPrintable c) text

end Handover.Text
