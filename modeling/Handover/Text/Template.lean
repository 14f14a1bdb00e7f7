import Handover.Text.Member

/-!
# Reference templates

A reference template is a text with replacement fields between braces, of which the only one that
can be filled is `name`. `Template.fill` copies the text and fills each field from left to right.
Two equal braces stand for one. A field may pick a character by index and a member by name, ask for
a quoted form by a conversion (`!r`, `!s`, `!a`), and give a format after a colon: an optional fill
character and alignment, a least width and a greatest length, and the presentation `s`. The format
may hold fields of its own, one level deep.
-/

set_option autoImplicit false
set_option relaxedAutoImplicit false

namespace Handover.Template

open Handover.Text

/-- Why a template cannot be filled. -/
inductive Flaw
  /-- The braces, a field or a format are malformed. -/
  | malformed
  /-- A field is given by position. -/
  | positional
  /-- A field has another name. -/
  | unknownField (field : String)
  /-- A character is picked beyond the end. -/
  | pastEnd
  /-- A character is picked by something other than an index. -/
  | notAnIndex
  /-- A member is picked that is not there. -/
  | noMember
  /-- A format is given to something that is no text. -/
  | formatted
  /-- A text is laid out wider than memory is. -/
  | tooWide
deriving DecidableEq, Repr

/-! ### Cutting a template into fields -/

/-- A replacement field as it is written: what names it, its conversion and its format. -/
structure Field where
  reference : List Char
  conversion : Option Char
  format : List Char
deriving DecidableEq, Repr

/-- The reference of a field up to the character that ends it, which is returned with what follows.
Inside brackets only a closing bracket counts. -/
def takeReference : Bool → List Char → Except Flaw (List Char × Char × List Char)
  | _, [] => .error .malformed
  | true, c :: rest => do
    let (taken, last, after) ← takeReference (c != ']') rest
    return (c :: taken, last, after)
  | false, c :: rest =>
    if c = '\x7b' then .error .malformed
    else if c = '\x7d' ∨ c = ':' ∨ c = '!' then .ok ([], c, rest)
    else do
      let (taken, last, after) ← takeReference (c == '[') rest
      return (c :: taken, last, after)

/-- The format of a field up to the brace that closes it, with what follows; inner braces nest. -/
def takeFormat : Nat → List Char → Except Flaw (List Char × List Char)
  | _, [] => .error .malformed
  | depth, c :: rest =>
    if c = '\x7d' then
      match depth with
      | 0 => .ok ([], rest)
      | outer + 1 => do
        let (taken, after) ← takeFormat outer rest
        return (c :: taken, after)
    else do
      let (taken, after) ← takeFormat (if c = '\x7b' then depth + 1 else depth) rest
      return (c :: taken, after)

/-- The field after an opening brace, with what follows its closing brace. -/
def takeField (text : List Char) : Except Flaw (Field × List Char) := do
  let (reference, last, rest) ← takeReference false text
  if last = '\x7d' then
    return (⟨reference, none, []⟩, rest)
  if last = ':' then
    let (format, after) ← takeFormat 0 rest
    return (⟨reference, none, format⟩, after)
  match rest with
  | [] => throw .malformed
  | conversion :: rest =>
    match rest with
    | '\x7d' :: after => return (⟨reference, some conversion, []⟩, after)
    | ':' :: after =>
      let (format, after) ← takeFormat 0 after
      return (⟨reference, some conversion, format⟩, after)
    | _ => throw .malformed

/-- A piece of a template: text as it is, or a field. -/
inductive Piece
  | plain (text : List Char)
  | field (field : Field)
deriving DecidableEq, Repr

/-- The first piece of a template, with what follows it; `none` at the end. A brace that is neither
doubled nor opens a field is malformed. -/
def nextPiece : List Char → Except Flaw (Option (Piece × List Char))
  | [] => .ok none
  | c :: rest =>
    if c = '\x7b' ∨ c = '\x7d' then
      match rest with
      | [] => .error .malformed
      | d :: after =>
        if d = c then .ok (some (.plain [c], after))
        else if c = '\x7d' then .error .malformed
        else do
          let (field, after) ← takeField rest
          return some (.field field, after)
    else .ok (some (.plain [c], rest))

/-! ### What a field names -/

/-- The greatest number an index, a width or a length may reach. -/
def numberLimit : Nat := Nat.pow 2 63 - 1

/-- The number that digits after a given number continue to; `none` if something else follows. A
number over the limit is malformed, whatever follows it. -/
def continueNumber (value : Nat) : List Char → Except Flaw (Option Nat)
  | [] => .ok (some value)
  | c :: rest =>
    match digitValue? c with
    | none => .ok none
    | some digit =>
      let next := 10 * value + digit
      if numberLimit < next then .error .malformed else continueNumber next rest

/-- The number written by decimal digits of any script; `none` for anything else or nothing. -/
def number? (text : List Char) : Except Flaw (Option Nat) :=
  if text.isEmpty then .ok none else continueNumber 0 text

/-- The first part of a reference: all before a point or an opening bracket. -/
def head (reference : List Char) : List Char :=
  reference.takeWhile fun c ↦ c != '.' && c != '['

/-- The item of a subject that a key between brackets picks. -/
def item (subject : Subject) (key : List Char) : Except Flaw Subject := do
  match ← number? key with
  | none => throw (if key.isEmpty then .malformed else .notAnIndex)
  | some index =>
    match subject.items? with
    | none => throw .notAnIndex
    | some items =>
      match items[index]? with
      | none => throw .pastEnd
      | some chosen => return chosen

/-- The selections after the first part of a reference, made one after the other: a name after a
point picks a member, and an index between brackets picks an item. -/
def select (fuel : Nat) (value : Subject) (selections : List Char) : Except Flaw Subject :=
  match fuel with
  | 0 => .error .malformed
  | fuel + 1 =>
    match selections with
    | [] => .ok value
    | '.' :: rest =>
      let name := head rest
      if name.isEmpty then .error .malformed
      else
        match value.member? (String.ofList name) with
        | none => .error .noMember
        | some chosen => select fuel chosen (rest.drop name.length)
    | '[' :: rest => do
      let key := rest.takeWhile (· != ']')
      match rest.dropWhile (· != ']') with
      | [] => throw .malformed
      | _ :: after => select fuel (← item value key) after
    | _ => .error .malformed

/-- The subject a reference stands for when the field `name` holds `value`. -/
def lookup (value : List Char) (reference : List Char) : Except Flaw Subject := do
  let first := head reference
  match ← number? first with
  | some _ => throw .positional
  | none =>
    if first.isEmpty then throw .positional
    if first ≠ "name".toList then throw (.unknownField (String.ofList first))
    select (reference.length + 1) (.text value) (reference.drop first.length)

/-- A subject between the quotes of a given form; only a text has any. -/
def quoted (form : String → String) (subject : Subject) : Subject :=
  match subject with
  | .text content => Subject.ofText (form (String.ofList content))
  | subject => .text subject.characters

/-- The subject after a conversion. -/
def convert (subject : Subject) : Option Char → Except Flaw Subject
  | none => .ok subject
  | some c =>
    if c = 's' then .ok (.text subject.characters)
    else if c = 'r' then .ok (quoted quote subject)
    else if c = 'a' then .ok (quoted quoteAscii subject)
    else .error .malformed

/-! ### Formats -/

/-- The side on which a text that is shorter than its width stands. -/
inductive Alignment
  | left
  | right
  | center
deriving DecidableEq, Repr

/-- How a text is laid out. -/
structure Format where
  fill : Char := ' '
  alignment : Alignment := .left
  width : Nat := 0
  length : Option Nat := none
deriving DecidableEq, Repr

/-- The alignment a character asks for; the numeric one is no alignment of a text. -/
def alignment? (c : Char) : Option (Option Alignment) :=
  if c = '<' then some (some .left)
  else if c = '>' then some (some .right)
  else if c = '^' then some (some .center)
  else if c = '=' then some none
  else none

/-- The number at the start of a format, if there is one, and what follows it. -/
def takeNumber (text : List Char) : Except Flaw (Option Nat × List Char) := do
  let digits := text.takeWhile fun c ↦ (digitValue? c).isSome
  let value ← number? digits
  return (value, text.drop digits.length)

/-- The fill character, if one is given, the alignment, and what follows them. -/
def takeAlignment (text : List Char) :
    Option Char × Option (Option Alignment) × List Char :=
  match text with
  | fill :: mark :: rest =>
    match alignment? mark with
    | some alignment => (some fill, some alignment, rest)
    | none =>
      match alignment? fill with
      | some alignment => (none, some alignment, mark :: rest)
      | none => (none, none, text)
  | [mark] =>
    match alignment? mark with
    | some alignment => (none, some alignment, [])
    | none => (none, none, text)
  | [] => (none, none, [])

/-- Reads a format. Signs, grouping and every presentation but `s` belong to numbers and are
malformed here. -/
def readFormat (text : List Char) : Except Flaw Format := do
  let (fill, alignment, rest) := takeAlignment text
  let (padded, rest) :=
    match fill, rest with
    | none, '0' :: after => (true, after)
    | _, _ => (false, rest)
  let (width, rest) ← takeNumber rest
  let (length, rest) ←
    match rest with
    | '.' :: after => do
      let (length, after) ← takeNumber after
      if length.isNone then throw .malformed
      pure (length, after)
    | _ => pure (none, rest)
  if rest ≠ [] ∧ rest ≠ ['s'] then throw .malformed
  match alignment.getD (some .left) with
  | none => throw .malformed
  | some alignment =>
    return ⟨fill.getD (if padded then '0' else ' '), alignment, width.getD 0, length⟩

/-- The greatest width that a text is laid out in. -/
def widthLimit : Nat := Nat.pow 2 32

/-- A text cut to its length and padded to its width. -/
def Format.apply (format : Format) (value : List Char) : List Char :=
  let kept :=
    match format.length with
    | none => value
    | some length => value.take length
  let missing := format.width - kept.length
  let before :=
    match format.alignment with
    | .left => 0
    | .right => missing
    | .center => missing / 2
  List.replicate before format.fill ++ kept ++ List.replicate (missing - before) format.fill

/-! ### Filling -/

/-- The text of one field, where `expand` fills the fields inside its format. -/
def fillField (expand : List Char → Except Flaw (List Char)) (value : List Char) (field : Field) :
    Except Flaw (List Char) := do
  let selected ← lookup value field.reference
  let converted ← convert selected field.conversion
  let format ← if field.format.contains '\x7b' then expand field.format else pure field.format
  match converted with
  | .text content =>
    let format ← readFormat format
    if widthLimit < format.width then throw .tooWide else return format.apply content
  | subject => if format.isEmpty then return subject.characters else throw .formatted

/-- Fills the pieces of a template from left to right, where `expand` fills the fields inside
formats. Each piece is at least one character, so the length of the template bounds their number. -/
def fillPieces (expand : List Char → Except Flaw (List Char)) (value : List Char) :
    Nat → List Char → Except Flaw (List Char)
  | 0, _ => .ok []
  | fuel + 1, text => do
    match ← nextPiece text with
    | none => return []
    | some (.plain plain, rest) => return plain ++ (← fillPieces expand value fuel rest)
    | some (.field field, rest) =>
      let filled ← fillField expand value field
      return filled ++ (← fillPieces expand value fuel rest)

/-- Fills a template to the given depth of nested formats. -/
def fillToDepth (value : List Char) : Nat → List Char → Except Flaw (List Char)
  | 0, _ => .error .malformed
  | depth + 1, text => fillPieces (fillToDepth value depth) value (text.length + 1) text

/-- The text of a template when its field `name` holds the given name. -/
def fill (template name : String) : Except Flaw String := do
  return String.ofList (← fillToDepth name.toList 2 template.toList)

end Handover.Template
