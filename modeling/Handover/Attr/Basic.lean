import Handover.Element.Conversion
import Handover.Number.Decimal
import Handover.OrderedMap
import Handover.Text.Identifier

/-!
# Attribute values

The values that configure an operation (`Attr`): nothing, a truth value, an integer, a 64-bit
floating-point number, a text, a scalar with an element type of its own, and lists, tuples and
records of such values. A tuple may be of a class that names its items (`TupleClass`). No value is
an array, a set, a complex number or an object of any other class, and the keys of records are
texts.

A graph stores scalars as plain values (`Attr.plain`), also those inside lists and tuples. For that
a collection is made anew from its items, which a tuple of a class refuses (`Attr.isRemakable`). Two
values are the same when they stand for the same (`Attr.same`), whatever kind of number says it.
-/

set_option autoImplicit false
set_option relaxedAutoImplicit false

namespace Handover

/-- A class of tuples that names their items. It makes a tuple from one argument for each item, of
which there are at least two, and so never from a collection of the items. -/
structure TupleClass where
  name : String
  fields : List String
  name_usable : Text.isUsableIdentifier name = true
  fields_usable : ∀ field ∈ fields, Text.isUsableIdentifier field = true
  two_le_length : 2 ≤ fields.length

/-- The value of an attribute. -/
inductive Attr
  | null
  | bool (value : Bool)
  | int (value : Int)
  | real (value : Word .float64)
  | text (value : String)
  | scalar (value : Scalar)
  | list (items : List Attr)
  | tuple (items : List Attr) (form : Option TupleClass := none)
  | record (fields : List (String × Attr))
deriving Inhabited

/-- The attributes of an operation, by name. -/
abbrev Attrs : Type := OrderedMap String Attr

/-- A scalar as a plain value: a truth value, an integer, or a 64-bit floating-point number. -/
def Scalar.plain (scalar : Scalar) : Attr :=
  match scalar.elementType.kind with
  | .truth => .bool scalar.word.isTrue
  | .integer _ _ => .int scalar.word.toInt
  | .real _ => .real (scalar.word.convert .float64)

namespace Attr

/-- The value with a scalar at the top as a plain value. -/
def unwrap : Attr → Attr
  | scalar value => value.plain
  | value => value

mutual

/-- The value with every scalar outside records as a plain value. -/
def plain : Attr → Attr
  | scalar value => value.plain
  | list items => list (plainItems items)
  | tuple items form => tuple (plainItems items) form
  | value => value

/-- A list of values with every scalar outside records as a plain value. -/
def plainItems : List Attr → List Attr
  | [] => []
  | item :: rest => item.plain :: plainItems rest

end

mutual

/-- Whether every list and every tuple outside records can be made anew from its items. -/
def isRemakable : Attr → Bool
  | list items => areRemakable items
  | tuple items form => areRemakable items && form.isNone
  | _ => true

/-- Whether some items can be made anew from theirs. -/
def areRemakable : List Attr → Bool
  | [] => true
  | item :: rest => item.isRemakable && areRemakable rest

end

/-- Whether a value counts as true: a zero, nothing, and an empty text or collection do not. -/
def isTrue : Attr → Bool
  | null => false
  | bool value => value
  | int value => value != 0
  | real value => value.isTrue
  | text value => !value.isEmpty
  | scalar value => value.word.isTrue
  | list items => !items.isEmpty
  | tuple items _ => !items.isEmpty
  | record fields => !fields.isEmpty

/-! ### Sameness -/

/-- The number that a value is; a truth value is one or zero. -/
def number? : Attr → Option BinaryNumber
  | bool value => some (.finite false (if value then 1 else 0) 0)
  | int value => some (.finite (decide (value < 0)) value.natAbs 0)
  | real value => some value.toNumber
  | scalar value => some value.word.toNumber
  | _ => none

/-- Whether two values are the same number. -/
def sameNumber (a b : Attr) : Bool :=
  match a.number?, b.number? with
  | some .nan, some .nan => true
  | some x, some y => x.equals y
  | _, _ => false

mutual

/-- Whether two values stand for the same: numbers by their value, records by their fields in any
order, and lists and tuples item by item, whatever the class of a tuple. -/
def same : Attr → Attr → Bool
  | null, null => true
  | text a, text b => a == b
  | list a, list b => sameItems a b
  | tuple a _, tuple b _ => sameItems a b
  | record a, record b => a.length == b.length && sameFields a b
  | a, b => sameNumber a b

/-- Whether two lists of values are the same item by item. -/
def sameItems : List Attr → List Attr → Bool
  | [], [] => true
  | a :: restA, b :: restB => same a b && sameItems restA restB
  | _, _ => false

/-- Whether every field of a record is a field of another one. -/
def sameFields : List (String × Attr) → List (String × Attr) → Bool
  | [], _ => true
  | (key, value) :: rest, others =>
    (match (OrderedMap.mk others).find? key with
      | some other => same value other
      | none => false) &&
      sameFields rest others

end

end Attr

/-- The amount that keeps a normalization from dividing by zero: a hundred-thousandth if none is
given as `eps`. -/
def Attrs.normalizationFloor (attrs : Attrs) : Attr :=
  (attrs.find? "eps").getD (.real (Word.ofBits .float64 (Decimal.toWord .double ⟨false, 1, -5⟩)))

/-- Whether attributes can be made anew from their items. -/
def Attrs.areRemakable (attrs : Attrs) : Bool := attrs.entries.all fun entry ↦ entry.2.isRemakable

/-- Attributes with every scalar outside records as a plain value. -/
def Attrs.plain (attrs : Attrs) : Attrs :=
  ⟨attrs.entries.map fun entry ↦ (entry.1, entry.2.plain)⟩

end Handover
