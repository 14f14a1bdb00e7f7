import Handover.Attr.Integer

/-!
# Encodings of stored elements

How the elements of a stored tensor are written (`Encoding`): what an element is (`StoredKind`) and
which of its bytes comes first. An encoding is named by a full name, or by a letter or a kind with a
byte count, and these two may have a mark of the byte order before them (`Encoding.ofName?`).
`Encoding.decode` reads one element as an element of another type: of a pair of numbers only the
first counts, unless a truth value is asked for, and a text is read as the number it writes.
`Encoding.encode` writes a number.
-/

set_option autoImplicit false
set_option relaxedAutoImplicit false

namespace Handover

/-- What a stored element is. -/
inductive StoredKind
  /-- An element of one of the element types. -/
  | element (t : ElementType)
  /-- A number of 80 bits with an explicit leading digit, in sixteen bytes. -/
  | extended
  /-- Two numbers of one type. -/
  | pair (part : ElementType)
  /-- Two numbers of 80 bits. -/
  | extendedPair
  /-- A count of ticks, in which the least integer stands for no time. -/
  | ticks
  /-- A text of a fixed length, whose characters are integers of a type. -/
  | text (character : ElementType) (length : Nat)
  /-- A reference into memory, which cannot be stored. -/
  | reference
deriving DecidableEq, Repr

/-- The bytes of each number or character that a stored element is made of. -/
def StoredKind.unitSize : StoredKind → Nat
  | element t => t.byteCount
  | extended | extendedPair => 16
  | pair part => part.byteCount
  | ticks | reference => 8
  | text character _ => character.byteCount

/-- The number of numbers or characters that a stored element is made of. -/
def StoredKind.unitCount : StoredKind → Nat
  | pair _ | extendedPair => 2
  | text _ length => length
  | _ => 1

/-- The bytes of one stored element. -/
def StoredKind.byteCount (kind : StoredKind) : Nat := kind.unitCount * kind.unitSize

/-- How the elements of a stored tensor are written. -/
structure Encoding where
  kind : StoredKind
  highestFirst : Bool := false
deriving DecidableEq, Repr

namespace Encoding

/-! ### Names -/

/-- The kinds that are named by one letter. -/
def letters : List (Char × StoredKind) :=
  [('?', .element .bool), ('b', .element .int8), ('h', .element .int16), ('i', .element .int32),
    ('l', .element .int64), ('q', .element .int64), ('p', .element .int64), ('n', .element .int64),
    ('B', .element .uint8), ('H', .element .uint16), ('I', .element .uint32),
    ('L', .element .uint64), ('Q', .element .uint64), ('P', .element .uint64),
    ('N', .element .uint64), ('e', .element .float16), ('f', .element .float32),
    ('d', .element .float64), ('g', .extended), ('F', .pair .float32), ('D', .pair .float64),
    ('G', .extendedPair), ('m', .ticks), ('M', .ticks), ('S', .text .uint8 0),
    ('a', .text .uint8 0), ('U', .text .uint32 0), ('V', .text .uint8 0), ('c', .text .uint8 1),
    ('O', .reference), ('T', .reference)]

/-- The kinds that are named by a letter and a byte count. -/
def sizedLetters : List ((Char × Nat) × StoredKind) :=
  [(('b', 1), .element .bool), (('i', 1), .element .int8), (('i', 2), .element .int16),
    (('i', 4), .element .int32), (('i', 8), .element .int64), (('u', 1), .element .uint8),
    (('u', 2), .element .uint16), (('u', 4), .element .uint32), (('u', 8), .element .uint64),
    (('f', 2), .element .float16), (('f', 4), .element .float32), (('f', 8), .element .float64),
    (('f', 16), .extended), (('c', 8), .pair .float32), (('c', 16), .pair .float64),
    (('c', 32), .extendedPair), (('O', 8), .reference), (('O', 4), .reference)]

/-- The full names. -/
def fullNames : List (String × StoredKind) :=
  [("bool", .element .bool), ("bool_", .element .bool), ("int8", .element .int8),
    ("byte", .element .int8), ("int16", .element .int16), ("short", .element .int16),
    ("int32", .element .int32), ("intc", .element .int32), ("int64", .element .int64),
    ("int", .element .int64), ("int_", .element .int64), ("long", .element .int64),
    ("intp", .element .int64), ("longlong", .element .int64), ("uint8", .element .uint8),
    ("ubyte", .element .uint8), ("uint16", .element .uint16), ("ushort", .element .uint16),
    ("uint32", .element .uint32), ("uintc", .element .uint32), ("uint64", .element .uint64),
    ("uint", .element .uint64), ("ulong", .element .uint64), ("uintp", .element .uint64),
    ("ulonglong", .element .uint64), ("float16", .element .float16), ("half", .element .float16),
    ("float32", .element .float32), ("single", .element .float32), ("float64", .element .float64),
    ("double", .element .float64), ("float", .element .float64), ("longdouble", .extended),
    ("float128", .extended), ("complex64", .pair .float32), ("csingle", .pair .float32),
    ("complex128", .pair .float64), ("cdouble", .pair .float64), ("complex", .pair .float64),
    ("clongdouble", .extendedPair), ("complex256", .extendedPair),
    ("bytes", .text .uint8 0), ("bytes_", .text .uint8 0), ("str", .text .uint32 0),
    ("str_", .text .uint32 0), ("unicode", .text .uint32 0), ("void", .text .uint8 0),
    ("object", .reference), ("object_", .reference)]

/-- The kind that a letter and a byte count name; of a text the characters are counted, which take
one byte or four. -/
def sizedKind? (letter : Char) (count : Nat) : Option StoredKind :=
  if letter = 'S' ∨ letter = 'a' ∨ letter = 'V' then some (.text .uint8 count)
  else if letter = 'U' then some (.text .uint32 count)
  else (sizedLetters.find? fun entry ↦ entry.1 = (letter, count)).map Prod.snd

/-- The names of a count of ticks. -/
def tickNames : List String := ["M8", "m8", "datetime64", "timedelta64"]

/-- The spans of time that a tick may be. -/
def tickSpans : List String :=
  ["Y", "M", "W", "D", "h", "m", "s", "ms", "us", "ns", "ps", "fs", "as", "generic"]

/-- Whether a text is the span of a tick between brackets, perhaps with a number of such spans. -/
def isSpan (text : List Char) : Bool :=
  match text with
  | '[' :: rest => tickSpans.any fun span ↦ rest.dropWhile Char.isDigit = span.toList ++ [']']
  | _ => false

/-- Whether a code names a count of ticks; the span of a tick may follow the name. -/
def isTicks (code : List Char) : Bool :=
  tickNames.any fun name ↦
    let rest := code.drop name.length
    code.take name.length = name.toList && (rest.isEmpty || isSpan rest)

/-- The kind that a code without a mark of the byte order names. -/
def codeKind? (code : List Char) : Option StoredKind :=
  if isTicks code then some .ticks
  else
    match code with
    | [letter] => (letters.find? fun entry ↦ entry.1 = letter).map Prod.snd
    | letter :: digits =>
      if digits.isEmpty || !digits.all Char.isDigit then none
      else sizedKind? letter (digitsValue digits)
    | [] => none

/-- The encoding of a given name, if there is one. -/
def ofName? (name : String) : Option Encoding :=
  match (fullNames.find? fun entry ↦ entry.1 = name).map Prod.snd with
  | some kind => some { kind }
  | none =>
    match name.toList with
    | [] => none
    | mark :: code =>
      if mark = '>' then (codeKind? code).map fun kind ↦ { kind, highestFirst := true }
      else if mark = '<' ∨ mark = '=' ∨ mark = '|' then (codeKind? code).map fun kind ↦ { kind }
      else (codeKind? (mark :: code)).map fun kind ↦ { kind }

/-- The plain encoding of the elements of a type. -/
def ofElementType (t : ElementType) : Encoding := { kind := .element t }

/-- The full name of an encoding; the order of the bytes has no part in it. -/
def name (encoding : Encoding) : String :=
  match encoding.kind with
  | .element t => t.name
  | .extended => "float128"
  | kind => ((fullNames.find? fun entry ↦ entry.2 = kind).map Prod.fst).getD "void"

/-- Whether the elements of an encoding are floating-point numbers. -/
def isReal (encoding : Encoding) : Bool :=
  match encoding.kind with
  | .element t => t.isReal
  | .extended => true
  | _ => false

/-- The encoding of a given name, or the error that there is none. -/
def named (name : String) : Result Encoding :=
  match ofName? name with
  | some encoding => .ok encoding
  | none => fails .unknownElementType

/-- The encoding that a value names. Nothing names the widest floating-point type, and a collection
without items an element without bytes. -/
def ofAttr (value : Attr) : Result Encoding :=
  match value with
  | .text name => named name
  | .null => .ok { kind := .element .float64 }
  | .list [] | .tuple [] _ | .record [] => .ok { kind := .text .uint8 0 }
  | .record ((_, .text _) :: _) | .record ((_, .list _) :: _) | .record ((_, .tuple _ _) :: _)
  | .record ((_, .record _) :: _) => fails .shapeMismatch
  | _ => fails .unknownElementType

/-! ### Elements -/

/-- The number that 80 bits stand for: a sign, an exponent field and a significand with its leading
digit. -/
def extendedNumber (word : Nat) : BinaryNumber :=
  let significand := word % Nat.pow 2 64
  let field := word / Nat.pow 2 64 % Nat.pow 2 15
  let negative := decide (word / Nat.pow 2 79 % 2 = 1)
  if field = Nat.pow 2 15 - 1 then
    if significand % Nat.pow 2 63 = 0 then .infinite negative else .nan
  else .finite negative significand ((Nat.max field 1 : Int) - 16383 - 63)

/-- The 80 bits of a number; the leading digit of the significand is written. -/
def extendedWord (number : BinaryNumber) : Nat :=
  let withSign (negative : Bool) (word : Nat) : Nat :=
    if negative then Nat.pow 2 79 + word else word
  let special := (Nat.pow 2 15 - 1) * Nat.pow 2 64 + Nat.pow 2 63
  match number with
  | .nan => special + Nat.pow 2 62
  | .infinite negative => withSign negative special
  | .finite negative mantissa exponent =>
    if mantissa = 0 then withSign negative 0
    else
      let shift := 63 - Nat.log2 mantissa
      let field := (exponent - (shift : Int) + 16383 + 63).toNat
      withSign negative (field * Nat.pow 2 64 + mantissa * Nat.pow 2 shift)

/-- An element of a type written by bytes of which the lowest comes first. -/
def wordOf (t : ElementType) (bytes : List UInt8) : Word t :=
  Word.ofBits t (Word.ofLittleEndian bytes)

/-- A floating-point number as an element of a type. -/
def numberAs (target : ElementType) (number : BinaryNumber) : Word target :=
  match target.kind with
  | .real _ => Word.ofNumber target number
  | .truth => Word.ofBool target !number.isZero
  | .integer _ _ => Word.ofInt target (Word.truncated target number)

/-- A code as a character, if it is one. -/
def character? (code : Nat) : Option Char :=
  if code.isValidChar then some (Char.ofNat code) else none

/-- The text of which the codes of the characters are given, without the null characters that fill
it. -/
def storedText? (codes : List Nat) : Option String :=
  let kept := (codes.reverse.dropWhile (· == 0)).reverse
  (kept.mapM character?).map String.ofList

/-- The number that a text writes, as an element of a type. -/
def writtenNumber (target : ElementType) (content : String) : Result (Word target) := do
  if target.isReal then
    match realOfText? .double (String.ofList (Text.strip content.toList)) with
    | some word => return (Word.ofBits .float64 word).convert target
    | none => fails .malformedNumber
  else
    let value ← (Attr.text content).toInteger
    if target = .bool then return Word.ofBool target (value != 0)
    else if target.holds value then return Word.ofInt target value
    else fails .numberOutOfRange

/-- Consecutive parts of some bytes, each of the same length. -/
def parts (length : Nat) : Nat → List UInt8 → List (List UInt8)
  | 0, _ => []
  | count + 1, bytes => bytes.take length :: parts length count (bytes.drop length)

/-- The numbers or characters of one element, the lowest byte of each first. -/
def units (encoding : Encoding) (bytes : List UInt8) : List (List UInt8) :=
  let given := parts encoding.kind.unitSize encoding.kind.unitCount bytes
  if encoding.highestFirst then given.map List.reverse else given

/-- A stored element as an element of a type. -/
def decode (encoding : Encoding) (target : ElementType) (bytes : List UInt8) :
    Result (Word target) :=
  let units := encoding.units bytes
  let first := units.getD 0 []
  let second := units.getD 1 []
  match encoding.kind with
  | .element t =>
    let word := wordOf t first
    .ok (if t = target then Word.ofBits target word.toNat else word.convert target)
  | .extended => .ok (numberAs target (extendedNumber (Word.ofLittleEndian first)))
  | .pair part =>
    let real := wordOf part first
    .ok (if target = .bool then Word.ofBool target (real.isTrue || (wordOf part second).isTrue)
      else real.convert target)
  | .extendedPair =>
    let real := extendedNumber (Word.ofLittleEndian first)
    let imaginary := extendedNumber (Word.ofLittleEndian second)
    .ok (if target = .bool then Word.ofBool target (!real.isZero || !imaginary.isZero)
      else numberAs target real)
  | .ticks =>
    let word := wordOf .int64 first
    .ok (if target.isReal && word.toInt == -Int.pow 2 63 then Word.ofNumber target .nan
      else word.convert target)
  | .text _ _ =>
    match storedText? (units.map Word.ofLittleEndian) with
    | some content => writtenNumber target content
    | none => fails .malformedNumber
  | .reference => fails .malformedNumber

/-- An element of a type as it is stored by an encoding of numbers. -/
def encode (encoding : Encoding) {t : ElementType} (word : Word t) : List UInt8 :=
  let bytes :=
    match encoding.kind with
    | .element stored =>
      if stored = t then word.toBytes else Word.toBytes (word.convert stored)
    | _ => Word.littleEndian 16 (extendedWord word.toNumber)
  if encoding.highestFirst then bytes.reverse else bytes

end Encoding

end Handover
