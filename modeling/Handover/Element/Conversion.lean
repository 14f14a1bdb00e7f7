import Handover.Element.Basic

/-!
# Conversion between element types

`ElementType.promote` is the type two operands are brought to, `ElementType.promoteAll` the type
that the parts of a joined tensor are brought to, and `Word.convert` carries one element over:
integers keep their low bits, floating-point numbers go to the nearest word, anything
nonzero is true, and a floating-point number loses its fraction on the way to an integer. A number
that the integer of conversion cannot hold becomes its least value, whose low bits the target keeps.
`Word.toBytes` and `Word.ofLittleEndian` are the little-endian form of an element.
-/

set_option autoImplicit false
set_option relaxedAutoImplicit false

namespace Handover

namespace ElementType

/-- The narrowest floating-point type that holds every element of a type. -/
def realHost : ElementType → ElementType
  | bool | int8 | uint8 | float16 => float16
  | int16 | uint16 | float32 => float32
  | _ => float64

/-- The wider of two types of one kind. -/
def wider (a b : ElementType) : ElementType := if a.byteCount < b.byteCount then b else a

/-- The signed integer type that holds every element of an unsigned one, if there is one. -/
def signedHost? : ElementType → Option ElementType
  | uint8 => some int16
  | uint16 => some int32
  | uint32 => some int64
  | _ => none

/-- The type that an unsigned and a signed integer are brought to: the signed one if it is wider,
else the next wider signed one, else the widest floating-point type. -/
def mixedSigns (unsigned signed : ElementType) : ElementType :=
  match signedHost? unsigned with
  | some host => wider signed host
  | none => float64

/-- The type two operands are brought to. -/
def promote (a b : ElementType) : ElementType :=
  match a.kind, b.kind with
  | .truth, _ => b
  | _, .truth => a
  | .integer signedA _, .integer signedB _ =>
    if signedA = signedB then wider a b
    else if signedA then mixedSigns b a
    else mixedSigns a b
  | _, _ => wider a.realHost b.realHost

/-- The place of a type in the order of breadth; the narrowest floating-point type comes last. -/
def breadth : ElementType → Nat
  | bool => 0
  | int8 => 1
  | uint8 => 2
  | int16 => 3
  | uint16 => 4
  | int32 => 5
  | uint32 => 6
  | int64 => 7
  | uint64 => 8
  | float32 => 9
  | float64 => 10
  | float16 => 11

/-- The last of several types in the order of breadth. -/
def broadest (first : ElementType) (rest : List ElementType) : ElementType :=
  rest.foldl (fun chosen t ↦ if chosen.breadth < t.breadth then t else chosen) first

/-- The type that several types are brought to: each meets the broadest one, and the results meet
one another. No two narrow types meet, so an unsigned and a signed byte beside a narrow
floating-point number take no wider type than it has. -/
def promoteAll (first : ElementType) (rest : List ElementType) : ElementType :=
  let main := broadest first rest
  (first :: rest).foldl (fun common t ↦ common.promote (main.promote t)) main

end ElementType

namespace Word

/-- The integer a floating-point number becomes on its way to an integer type: its integer part if
the integer of conversion holds it, and else the least value of that integer. Narrow types convert
through 32 bits; the widest unsigned type adds a second range above `2^63`. -/
def truncated (target : ElementType) (number : BinaryNumber) : Int :=
  let bound : Int :=
    match target with
    | .int64 | .uint32 | .uint64 => Int.pow 2 63
    | _ => Int.pow 2 31
  match number with
  | .finite negative mantissa exponent =>
    let whole := BinaryNumber.truncate negative mantissa exponent
    if -bound ≤ whole ∧ whole < bound then whole
    else if target = .uint64 ∧ bound ≤ whole then
      (if whole < 2 * bound then whole else 0)
    else -bound
  | .infinite false => if target = .uint64 then 0 else -bound
  | _ => -bound

/-- An element as an element of another type. A truth value is one or zero, whatever its word. -/
def convert {source : ElementType} (target : ElementType) (word : Word source) : Word target :=
  match source.kind, target.kind with
  | .real from_, .real to_ => ofBits target (from_.convert to_ word.toNat)
  | .truth, _ | _, .truth => ofBool target word.isTrue
  | .real format, .integer _ _ => ofInt target (truncated target (format.decode word.toNat))
  | _, .real format => ofBits target (format.ofInt word.toInt)
  | _, .integer _ _ => ofInt target word.toInt

/-- The lowest `count` bytes of a natural, the lowest first. -/
def littleEndian : Nat → Nat → List UInt8
  | 0, _ => []
  | count + 1, value => UInt8.ofNat value :: littleEndian count (value / 256)

/-- The natural written by bytes, the lowest first. -/
def ofLittleEndian : List UInt8 → Nat
  | [] => 0
  | byte :: rest => byte.toNat + 256 * ofLittleEndian rest

/-- The bytes of an element, the lowest first. -/
def toBytes {t : ElementType} (word : Word t) : List UInt8 :=
  littleEndian t.byteCount word.toNat

end Word

end Handover
