import Handover.Attr.Basic
import Handover.Number.Numeral
import Handover.Text.Quoted

/-!
# Attribute values as characters

The characters that stand for an attribute value inside a collection (`Attr.literalCharacters`):
texts are quoted, numbers have the fewest digits that read back, a tuple of one keeps its comma, one
of a class shows the names of its items, and a scalar names its element type. An integer is written
in digits only up to a number of them (`Attr.hasShortIntegers`).
-/

set_option autoImplicit false
set_option relaxedAutoImplicit false

namespace Handover

/-- An integer in decimal digits. -/
def integerNumeral (value : Int) : List Char :=
  if value < 0 then '-' :: decimalDigits value.natAbs else decimalDigits value.natAbs

/-- Whether an integer has no more digits than one may be written with. -/
def isShortInteger (value : Int) : Bool :=
  (decimalDigits value.natAbs).length ≤ integerDigitLimit

/-- A scalar inside a collection: its element type and its value. -/
def Scalar.literal (scalar : Scalar) : List Char :=
  match scalar.elementType.kind with
  | .truth => (if scalar.word.isTrue then "np.True_" else "np.False_").toList
  | .integer _ _ =>
    "np.".toList ++ scalar.elementType.name.toList ++
      ('(' :: integerNumeral scalar.word.toInt) ++ [')']
  | .real format =>
    "np.".toList ++ scalar.elementType.name.toList ++
      ('(' :: (shortestNumeral format scalar.word.toNumber).toList) ++ [')']

/-- Texts one after the other with commas between them. -/
def commaSeparated : List (List Char) → List Char
  | [] => []
  | [item] => item
  | item :: rest => item ++ ',' :: ' ' :: commaSeparated rest

/-- The items of a tuple between parentheses, a single one with a comma after it. -/
def tupleCharacters (items : List (List Char)) : List Char :=
  match items with
  | [item] => '(' :: item ++ [',', ')']
  | items => '(' :: commaSeparated items ++ [')']

/-- The items of a tuple of a class, each behind its name. -/
def TupleClass.characters (form : TupleClass) (items : List (List Char)) : List Char :=
  form.name.toList ++ '(' :: commaSeparated (List.zipWith
    (fun field item ↦ field.toList ++ '=' :: item) form.fields items) ++ [')']

/-- The items of a list between brackets. -/
def listCharacters (items : List (List Char)) : List Char :=
  '[' :: commaSeparated items ++ [']']

namespace Attr

mutual

/-- The characters of the literal of a value inside a collection. -/
def literalCharacters : Attr → List Char
  | null => "None".toList
  | bool value => (if value then "True" else "False").toList
  | int value => integerNumeral value
  | real value => (shortestNumeral .double value.toNumber).toList
  | text value => (Text.quote value).toList
  | scalar value => value.literal
  | list items => listCharacters (itemLiterals items)
  | tuple items none => tupleCharacters (itemLiterals items)
  | tuple items (some form) => form.characters (itemLiterals items)
  | record fields => '\x7b' :: commaSeparated (fieldLiterals fields) ++ ['\x7d']

/-- The literals of the items of a collection. -/
def itemLiterals : List Attr → List (List Char)
  | [] => []
  | item :: rest => item.literalCharacters :: itemLiterals rest

/-- The literals of the fields of a record, each with its key before it. -/
def fieldLiterals : List (String × Attr) → List (List Char)
  | [] => []
  | (key, value) :: rest =>
    ((Text.quote key).toList ++ ':' :: ' ' :: value.literalCharacters) :: fieldLiterals rest

end

/-! ### Digits -/

mutual

/-- Whether no integer in a value has more digits than one may be written with. -/
def hasShortIntegers : Attr → Bool
  | int value => isShortInteger value
  | list items => haveShortIntegers items
  | tuple items _ => haveShortIntegers items
  | record fields => fieldsHaveShortIntegers fields
  | _ => true

/-- Whether no integer in some items has too many digits. -/
def haveShortIntegers : List Attr → Bool
  | [] => true
  | item :: rest => item.hasShortIntegers && haveShortIntegers rest

/-- Whether no integer in the values of some fields has too many digits. -/
def fieldsHaveShortIntegers : List (String × Attr) → Bool
  | [] => true
  | (_, value) :: rest => value.hasShortIntegers && fieldsHaveShortIntegers rest

end

end Attr

end Handover
