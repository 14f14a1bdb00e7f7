import Handover.Attr.Characters

/-!
# Reading documents

A document is a value written as JSON text (`readDocument`). Records keep the order of their keys,
and of two values at one key the later one counts, in the place of the earlier. Whole numbers are
integers and all others are 64-bit floating-point numbers, for which `NaN`, `Infinity` and
`-Infinity` are read too. Texts hold no control character as it is, and a code point above `FFFF`
may be written as a pair of surrogates. Of several flaws the first that is met counts (`Flaw`).
-/

set_option autoImplicit false
set_option relaxedAutoImplicit false

namespace Handover.Document

/-- Whether a character may stand between the parts of a document. -/
def isSpace (c : Char) : Bool := c == ' ' || c == '\t' || c == '\n' || c == '\r'

/-- The text without the spaces at its start. -/
def skipSpaces (text : List Char) : List Char := text.dropWhile isSpace

/-- What follows a given beginning of a text. -/
def dropLead? : List Char → List Char → Option (List Char)
  | [], rest => some rest
  | c :: lead, d :: rest => if c = d then dropLead? lead rest else none
  | _ :: _, [] => none

/-- Why a document cannot be read. -/
inductive Flaw
  /-- The text is no document. -/
  | malformed
  /-- An integer has more digits than an integer may have. -/
  | integerTooLong
  /-- Collections nest deeper than they may. -/
  | tooDeep
deriving DecidableEq, Repr

/-- What is found at the start of a text, with what follows it. -/
abbrev Found (α : Type) : Type := α × List Char

/-! ### Texts -/

/-- The value of a hexadecimal digit. -/
def hexValue? (c : Char) : Option Nat :=
  if c.isDigit then some (c.toNat - 48)
  else if 97 ≤ c.toNat ∧ c.toNat ≤ 102 then some (c.toNat - 87)
  else if 65 ≤ c.toNat ∧ c.toNat ≤ 70 then some (c.toNat - 55)
  else none

/-- The code unit written by four hexadecimal digits, with what follows it. -/
def codeUnit? : List Char → Option (Nat × List Char)
  | a :: b :: c :: d :: rest => do
    let a ← hexValue? a
    let b ← hexValue? b
    let c ← hexValue? c
    let d ← hexValue? d
    return (((a * 16 + b) * 16 + c) * 16 + d, rest)
  | _ => none

/-- The second code unit of a pair, if one follows. -/
def lowSurrogate? : List Char → Option (Nat × List Char)
  | '\\' :: 'u' :: rest => do
    let (unit, rest) ← codeUnit? rest
    if 0xDC00 ≤ unit ∧ unit ≤ 0xDFFF then some (unit, rest) else none
  | _ => none

/-- The character of a code point; the replacement character stands for a lone surrogate. -/
def codePoint (code : Nat) : Char :=
  if 0xD800 ≤ code ∧ code ≤ 0xDFFF then Char.ofNat 0xFFFD else Char.ofNat code

/-- The character written by an escape after its backslash, with what follows it. -/
def escaped? : List Char → Option (Char × List Char)
  | 'u' :: rest => do
    let (unit, after) ← codeUnit? rest
    if 0xD800 ≤ unit ∧ unit ≤ 0xDBFF then
      match lowSurrogate? after with
      | some (low, after) =>
        some (codePoint (0x10000 + (unit - 0xD800) * 0x400 + (low - 0xDC00)), after)
      | none => some (codePoint unit, after)
    else some (codePoint unit, after)
  | c :: rest =>
    if c = '\x22' ∨ c = '\\' ∨ c = '/' then some (c, rest)
    else if c = 'b' then some ('\x08', rest)
    else if c = 'f' then some ('\x0c', rest)
    else if c = 'n' then some ('\n', rest)
    else if c = 'r' then some ('\r', rest)
    else if c = 't' then some ('\t', rest)
    else none
  | [] => none

/-- The text up to its closing quote, with what follows it. Each step reads a character at least, so
the length of what is left bounds their number. -/
def readText? : Nat → List Char → Option (List Char × List Char)
  | 0, _ => none
  | _, [] => none
  | fuel + 1, c :: rest =>
    if c = '\x22' then some ([], rest)
    else if c = '\\' then do
      let (d, rest) ← escaped? rest
      let (taken, after) ← readText? fuel rest
      return (d :: taken, after)
    else if c.toNat < 32 then none
    else do
      let (taken, after) ← readText? fuel rest
      return (c :: taken, after)

/-! ### Numbers -/

/-- The digits of the whole part of a number, which begins with a zero only if it is zero. -/
def wholeDigits (text : List Char) : List Char :=
  match text with
  | '0' :: _ => ['0']
  | _ => text.takeWhile Char.isDigit

/-- The fraction of a number, if there is one, with what follows it. -/
def fractionDigits (text : List Char) : List Char × List Char :=
  match text with
  | '.' :: rest =>
    let digits := rest.takeWhile Char.isDigit
    if digits.isEmpty then ([], text) else (digits, rest.drop digits.length)
  | _ => ([], text)

/-- The exponent of a number, if there is one, with what follows it. -/
def exponentDigits (text : List Char) : Option Int × List Char :=
  match text with
  | c :: rest =>
    if c = 'e' ∨ c = 'E' then
      let (negative, unsigned) := takeSign rest
      let digits := unsigned.takeWhile Char.isDigit
      if digits.isEmpty then (none, text)
      else
        let value : Int := digitsValue digits
        (some (if negative then -value else value), unsigned.drop digits.length)
    else (none, text)
  | [] => (none, [])

/-- The number at the start of a text, with what follows it. Only an integer is bounded in its
digits. -/
def readNumber (text : List Char) : Except Flaw (Found Attr) :=
  let (negative, unsigned) :=
    match text with
    | '-' :: rest => (true, rest)
    | _ => (false, text)
  let whole := wholeDigits unsigned
  if whole.isEmpty then .error .malformed
  else
    let (fraction, rest) := fractionDigits (unsigned.drop whole.length)
    let (exponent, rest) := exponentDigits rest
    if fraction.isEmpty && exponent.isNone then
      if integerDigitLimit < whole.length then .error .integerTooLong
      else
        let value : Int := digitsValue whole
        .ok (.int (if negative then -value else value), rest)
    else
      let decimal := Decimal.ofParts negative whole fraction (exponent.getD 0)
      .ok (.real (Word.ofBits .float64 (decimal.toWord .double)), rest)

/-- The words that stand for a value. -/
def words : List (String × Attr) :=
  let special (number : BinaryNumber) : Attr := .real (Word.ofNumber .float64 number)
  [("null", .null), ("true", .bool true), ("false", .bool false), ("NaN", special .nan),
    ("Infinity", special (.infinite false)), ("-Infinity", special (.infinite true))]

/-- The word or number at the start of a text, with what follows it. -/
def readSimple (text : List Char) : Except Flaw (Found Attr) :=
  match words.findSome? fun word ↦ (dropLead? word.1.toList text).map fun rest ↦ (word.2, rest) with
  | some found => .ok found
  | none => readNumber text

/-- The text after its opening quote, with what follows its closing one. -/
def readText (text : List Char) : Except Flaw (Found String) :=
  match readText? (text.length + 1) text with
  | some (content, after) => .ok (String.ofList content, after)
  | none => .error .malformed

/-! ### Values -/

/-- The most values that may be open at once. -/
def nestingLimit : Nat := 988

mutual

/-- The value at the start of a text, with what follows it, where `depth` values are open. -/
def readValue (depth : Nat) : Nat → List Char → Except Flaw (Found Attr)
  | 0, _ => .error .malformed
  | fuel + 1, text =>
    if nestingLimit < depth then .error .tooDeep
    else
      match text with
      | '\x22' :: rest => do
        let (content, after) ← readText rest
        return (.text content, after)
      | '[' :: rest =>
        match skipSpaces rest with
        | ']' :: after => .ok (.list [], after)
        | rest => do
          let (items, after) ← readItems (depth + 1) fuel rest
          return (.list items, after)
      | '\x7b' :: rest =>
        match skipSpaces rest with
        | '\x7d' :: after => .ok (.record [], after)
        | rest => do
          let (fields, after) ← readFields (depth + 1) fuel rest
          return (.record (OrderedMap.ofList fields).entries, after)
      | _ => readSimple text

/-- The items of a list up to its closing bracket, with what follows it. -/
def readItems (depth : Nat) : Nat → List Char → Except Flaw (Found (List Attr))
  | 0, _ => .error .malformed
  | fuel + 1, text => do
    let (item, rest) ← readValue depth fuel text
    match skipSpaces rest with
    | ']' :: after => return ([item], after)
    | ',' :: rest =>
      let (items, after) ← readItems depth fuel (skipSpaces rest)
      return (item :: items, after)
    | _ => throw .malformed

/-- The fields of a record up to its closing brace, with what follows it. -/
def readFields (depth : Nat) : Nat → List Char → Except Flaw (Found (List (String × Attr)))
  | 0, _ => .error .malformed
  | fuel + 1, text =>
    match text with
    | '\x22' :: rest => do
      let (key, rest) ← readText rest
      match skipSpaces rest with
      | ':' :: rest =>
        let (value, rest) ← readValue depth fuel (skipSpaces rest)
        match skipSpaces rest with
        | '\x7d' :: after => return ([(key, value)], after)
        | ',' :: rest =>
          let (fields, after) ← readFields depth fuel (skipSpaces rest)
          return ((key, value) :: fields, after)
        | _ => throw .malformed
      | _ => throw .malformed
    | _ => .error .malformed

end

/-- The value that a document writes, with nothing but spaces around it. Every step of the reader
consumes a character or opens a value that does, so twice the length bounds their number. -/
def readDocument (document : String) : Except Flaw Attr := do
  let text := document.toList
  let (value, rest) ← readValue 0 (2 * text.length + 2) (skipSpaces text)
  if (skipSpaces rest).isEmpty then return value else throw .malformed

end Handover.Document
