import Handover.Number.Binary

/-!
# Element types

The element types of stored weights and evaluated tensors (`ElementType`): a truth value, signed and
unsigned integers of four widths, and the three binary floating-point formats. An element is a word
of its type's width (`Word`), read as an integer in two's complement (`Word.toInt`), as a
floating-point number (`Word.toNumber`) or as a truth value (`Word.isTrue`). Each type has one name
(`ElementType.name`, `ElementType.ofName?`).
-/

set_option autoImplicit false
set_option relaxedAutoImplicit false

namespace Handover

/-- The type of the elements of a tensor. -/
inductive ElementType
  | bool
  | int8 | int16 | int32 | int64
  | uint8 | uint16 | uint32 | uint64
  | float16 | float32 | float64
deriving DecidableEq, Repr, Inhabited

/-- What the words of an element type stand for. -/
inductive ElementKind
  | truth
  | integer (signed : Bool) (width : Nat)
  | real (format : BinaryFormat)
deriving DecidableEq, Repr

namespace ElementType

/-- What the words of a type stand for. -/
def kind : ElementType → ElementKind
  | bool => .truth
  | int8 => .integer true 8
  | int16 => .integer true 16
  | int32 => .integer true 32
  | int64 => .integer true 64
  | uint8 => .integer false 8
  | uint16 => .integer false 16
  | uint32 => .integer false 32
  | uint64 => .integer false 64
  | float16 => .real .half
  | float32 => .real .single
  | float64 => .real .double

/-- The bytes of one element. -/
def byteCount : ElementType → Nat
  | bool | int8 | uint8 => 1
  | int16 | uint16 | float16 => 2
  | int32 | uint32 | float32 => 4
  | int64 | uint64 | float64 => 8

/-- The bits of one element. -/
def width (t : ElementType) : Nat := 8 * t.byteCount

/-- The name of a type. -/
def name : ElementType → String
  | bool => "bool"
  | int8 => "int8"
  | int16 => "int16"
  | int32 => "int32"
  | int64 => "int64"
  | uint8 => "uint8"
  | uint16 => "uint16"
  | uint32 => "uint32"
  | uint64 => "uint64"
  | float16 => "float16"
  | float32 => "float32"
  | float64 => "float64"

/-- The code of a type: a letter for what its words stand for, and its bytes. -/
def code (t : ElementType) : String :=
  let letter :=
    match t.kind with
    | .truth => "b"
    | .integer signed _ => if signed then "i" else "u"
    | .real _ => "f"
  letter ++ toString t.byteCount

/-- Every element type. -/
def all : List ElementType :=
  [bool, int8, int16, int32, int64, uint8, uint16, uint32, uint64, float16, float32, float64]

/-- The element type with a given name. -/
def ofName? (name : String) : Option ElementType := all.find? fun t ↦ t.name = name

/-- Whether an integer lies in the range of an integer type. -/
def holds (t : ElementType) (value : Int) : Bool :=
  match t.kind with
  | .integer true width => -Int.pow 2 (width - 1) ≤ value && value < Int.pow 2 (width - 1)
  | .integer false width => 0 ≤ value && value < Int.pow 2 width
  | _ => false

/-- Whether the words of a type are floating-point numbers. -/
def isReal (t : ElementType) : Bool :=
  match t.kind with
  | .real _ => true
  | _ => false

end ElementType

/-- One element: a word of its type's width. -/
abbrev Word (t : ElementType) : Type := BitVec t.width

/-- A single number with an element type of its own. -/
structure Scalar where
  elementType : ElementType
  word : Word elementType

instance : Inhabited Scalar := ⟨⟨.bool, 0⟩⟩

namespace Word

variable {t : ElementType}

/-- The word of a type that holds the low bits of an integer. -/
def ofInt (t : ElementType) (value : Int) : Word t := BitVec.ofInt t.width value

/-- The word of a type with the given bits. -/
def ofBits (t : ElementType) (bits : Nat) : Word t := BitVec.ofNat t.width bits

/-- The integer a word stands for: two's complement when the type is signed. -/
def toInt (word : Word t) : Int :=
  match t.kind with
  | .integer true _ => BitVec.toInt word
  | _ => (BitVec.toNat word : Int)

/-- The number a word of a floating-point type stands for. -/
def toNumber (word : Word t) : BinaryNumber :=
  match t.kind with
  | .real format => format.decode word.toNat
  | _ => .finite (decide (word.toInt < 0)) word.toInt.natAbs 0

/-- Whether a word counts as true: any nonzero integer, and any number but the two zeros. -/
def isTrue (word : Word t) : Bool :=
  match t.kind with
  | .real format => !(format.decode word.toNat).isZero
  | _ => word.toNat != 0

/-- The word of a truth value. -/
def ofBool (t : ElementType) (value : Bool) : Word t :=
  match t.kind with
  | .real format => ofBits t (format.ofInt (if value then 1 else 0))
  | _ => ofBits t (if value then 1 else 0)

/-- The word of a floating-point type nearest to a number. -/
def ofNumber (t : ElementType) (number : BinaryNumber) : Word t :=
  match t.kind with
  | .real format => ofBits t (format.encode number)
  | _ => ofBits t 0

end Word

end Handover
