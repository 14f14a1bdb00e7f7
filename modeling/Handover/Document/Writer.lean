import Handover.Error

/-!
# Writing documents

A value is written as JSON text in ASCII, with two blanks of indentation for each level and one item
or field on each line (`writeDocument`). Tuples are written as lists and scalars as plain numbers. A
truth-valued scalar cannot be written, nor an integer with more digits than one may be written with,
and the writer stops there: what it wrote before stays (`Written`).
-/

set_option autoImplicit false
set_option relaxedAutoImplicit false

namespace Handover.Document

/-- What has been written, and why the writer stopped if it did. -/
structure Written where
  text : List Char
  stopped : Option Error := none

/-- What is written by one writer and, unless it stopped, by another after it. -/
def Written.andThen (first second : Written) : Written :=
  if first.stopped.isSome then first else ⟨first.text ++ second.text, second.stopped⟩

/-- The escape of a code unit. -/
def escapeUnit (unit : Nat) : List Char := '\\' :: 'u' :: Text.hexDigits 4 unit

/-- The pair of code units of a code point above `FFFF`, or its one code unit. -/
def escapePoint (code : Nat) : List Char :=
  if code < 0x10000 then escapeUnit code
  else
    escapeUnit (0xD800 + (code - 0x10000) / 0x400) ++ escapeUnit (0xDC00 + (code - 0x10000) % 0x400)

/-- One character of a text. -/
def escapeCharacter (c : Char) : List Char :=
  if c = '\x22' ∨ c = '\\' then ['\\', c]
  else if c = '\n' then ['\\', 'n']
  else if c = '\r' then ['\\', 'r']
  else if c = '\t' then ['\\', 't']
  else if c = '\x0c' then ['\\', 'f']
  else if c = '\x08' then ['\\', 'b']
  else if 32 ≤ c.toNat ∧ c.toNat < 127 then [c]
  else escapePoint c.toNat

/-- A text between quotes. -/
def quoted (text : String) : List Char :=
  '\x22' :: text.toList.flatMap escapeCharacter ++ ['\x22']

/-- A number. -/
def numeral (number : BinaryNumber) : List Char :=
  match number with
  | .nan => "NaN".toList
  | .infinite negative => (if negative then "-Infinity" else "Infinity").toList
  | number => (shortestNumeral .double number).toList

/-- A new line with the indentation of a level. -/
def lineBreak (level : Nat) : List Char := '\n' :: List.replicate (2 * level) ' '

/-- An integer. -/
def writeInteger (value : Int) : Written :=
  if isShortInteger value then ⟨integerNumeral value, none⟩
  else ⟨[], some (.flaw .integerTooLong)⟩

/-- A value without parts. -/
def writeSimple : Attr → Written
  | .null => ⟨"null".toList, none⟩
  | .bool value => ⟨(if value then "true" else "false").toList, none⟩
  | .int value => writeInteger value
  | .real value => ⟨numeral value.toNumber, none⟩
  | .text value => ⟨quoted value, none⟩
  | .scalar value =>
    match value.plain with
    | .int value => ⟨integerNumeral value, none⟩
    | .real value => ⟨numeral value.toNumber, none⟩
    | _ => ⟨[], some (.complaint (.notStorable "<class 'numpy.bool'>"))⟩
  | _ => ⟨[], none⟩

/-- The parts of a collection after its opening bracket, each on a line of its own. -/
def joinLines (level : Nat) (opening : Char) : List Written → Written
  | [] => ⟨[], none⟩
  | first :: rest =>
    rest.foldl (fun written part ↦ (written.andThen ⟨',' :: lineBreak level, none⟩).andThen part)
      (Written.andThen ⟨opening :: lineBreak level, none⟩ first)

/-- The parts of a collection between its brackets, each on a line of its own. -/
def enclose (level : Nat) (opening closing : Char) (parts : List Written) : Written :=
  match parts with
  | [] => ⟨[opening, closing], none⟩
  | first :: rest =>
    (joinLines (level + 1) opening (first :: rest)).andThen ⟨lineBreak level ++ [closing], none⟩

/-- Whether a value is no integer with too many digits. -/
def isFormed : Attr → Bool
  | .int value => isShortInteger value
  | _ => true

/-- The items of a list between its brackets. The line of an integer is begun only when its digits
are at hand, so one with too many of them leaves what is written for the items before it. -/
def encloseItems (level : Nat) (items : List Attr) (parts : List Written) : Written :=
  let formed := (items.takeWhile isFormed).length
  if formed = items.length then enclose level '[' ']' parts
  else
    (joinLines (level + 1) '[' (parts.take formed)).andThen ⟨[], some (.flaw .integerTooLong)⟩

mutual

/-- A value at a level of indentation. -/
def writeValue (level : Nat) : Attr → Written
  | .list items => encloseItems level items (writeItems (level + 1) items)
  | .tuple items _ => encloseItems level items (writeItems (level + 1) items)
  | .record fields => enclose level '\x7b' '\x7d' (writeFields (level + 1) fields)
  | value => writeSimple value

/-- The items of a list. -/
def writeItems (level : Nat) : List Attr → List Written
  | [] => []
  | item :: rest => writeValue level item :: writeItems level rest

/-- The fields of a record. -/
def writeFields (level : Nat) : List (String × Attr) → List Written
  | [] => []
  | (key, value) :: rest =>
    Written.andThen ⟨quoted key ++ [':', ' '], none⟩ (writeValue level value) ::
      writeFields level rest

end

/-- A value as a document. -/
def writeDocument (value : Attr) : Written := writeValue 0 value

end Handover.Document
