import Handover.Evaluation.Value

/-!
# Gathering values into arrays

A value as an array (`Value.gather`): the items of nested collections become dimensions, and the
numbers in them are brought to one element type. The items of a collection must have one shape. A
collection that holds a text and numbers is an array of texts, and one that holds anything else is
an array of things; of these only the shape counts, because no operation is defined on them.
-/

set_option autoImplicit false
set_option relaxedAutoImplicit false

namespace Handover

/-- What the elements of a gathered array are. -/
inductive Ingredient
  | number (t : ElementType)
  | text
  | thing
deriving DecidableEq, Repr

/-- What elements are that are gathered beside one another: things take in all else, and texts take
in numbers. -/
def Ingredient.beside : Ingredient → Ingredient → Ingredient
  | number a, number b => number (a.promote b)
  | thing, _ | _, thing => thing
  | _, _ => text

/-- A gathered value. -/
inductive Gathered
  | numbers (value : Strided)
  | texts (shape : List Nat)
  | things (shape : List Nat)

/-- The shape of a gathered value. -/
def Gathered.shape : Gathered → List Nat
  | numbers value => value.tensor.shape
  | texts shape | things shape => shape

/-- The number that an attribute value is, in the element type that it has by itself. -/
def Attr.ownScalar? : Attr → Option Scalar
  | .bool value => some ⟨.bool, Word.ofBool .bool value⟩
  | .int value =>
    if ElementType.int64.holds value then some ⟨.int64, Word.ofInt .int64 value⟩
    else if ElementType.uint64.holds value then some ⟨.uint64, Word.ofInt .uint64 value⟩
    else none
  | .real value => some ⟨.float64, value⟩
  | .scalar value => some value
  | _ => none

/-- The shape of a collection whose items have some shapes, which must be one and the same. -/
def collectionShape : List (List Nat) → Result (List Nat)
  | [] => .ok [0]
  | first :: rest =>
    if rest.all fun shape ↦ shape = first then .ok ((rest.length + 1) :: first)
    else fails .shapeMismatch

namespace Value

/-! ### Shapes and elements -/

mutual

/-- The shape of a value. -/
def shape : Value → Result (List Nat)
  | array value => .ok value.tensor.shape
  | scalar _ | plain _ => .ok []
  | list items => do collectionShape (← itemShapes items)
  | tuple items => do collectionShape (← itemShapes items)

/-- The shapes of the items of a collection. -/
def itemShapes : List Value → Result (List (List Nat))
  | [] => .ok []
  | item :: rest => do
    let own ← item.shape
    return own :: (← itemShapes rest)

end

mutual

/-- The elements of a value, row by row. -/
def leaves : Value → List Value
  | array value =>
    value.tensor.toList.map fun word ↦ scalar ⟨value.tensor.elementType, word⟩
  | list items => itemLeaves items
  | tuple items => itemLeaves items
  | value => [value]

/-- The elements of the items of a collection, one after the other. -/
def itemLeaves : List Value → List Value
  | [] => []
  | item :: rest => item.leaves ++ itemLeaves rest

end

/-- What an element by itself is. -/
def leafIngredient : Value → Ingredient
  | scalar value => .number value.elementType
  | plain (.text _) => .text
  | plain value => (value.ownScalar?.map fun own ↦ Ingredient.number own.elementType).getD .thing
  | _ => .thing

mutual

/-- What the elements of a value are, each array counted once. -/
def ingredients : Value → List Ingredient
  | array value => [.number value.tensor.elementType]
  | list items => itemIngredients items
  | tuple items => itemIngredients items
  | value => [value.leafIngredient]

/-- What the elements of the items of a collection are. -/
def itemIngredients : List Value → List Ingredient
  | [] => []
  | item :: rest => item.ingredients ++ itemIngredients rest

end

/-- What the elements of an array are into which a value is gathered. -/
def ingredient (value : Value) : Ingredient :=
  match value.ingredients with
  | [] => .number .float64
  | first :: rest => rest.foldl Ingredient.beside first

/-! ### Gathering -/

/-- An element as a number of a type. -/
def leafWord (t : ElementType) : Value → Word t
  | scalar value => value.word.convert t
  | plain value => (value.ownScalar?.map fun own ↦ own.word.convert t).getD 0
  | _ => 0

/-- A value as an array. -/
def gather (value : Value) : Result Gathered :=
  match value with
  | array value => .ok (.numbers value)
  | value => do
    let shape ← value.shape
    if Attr.dimensionLimit < shape.length then fails .shapeMismatch
    match value.ingredient with
    | .thing => return .things shape
    | .text => return .texts shape
    | .number t =>
      match Tensor.ofElements? t shape (value.leaves.map (leafWord t)) with
      | some tensor => return .numbers (.ofTensor tensor)
      | none => fails .shapeMismatch

/-- A value as an array of numbers, or the given flaw for any other array. -/
def gatherNumbers (value : Value) (flaw : Flaw) : Result Strided := do
  match ← value.gather with
  | .numbers numbers => return numbers
  | .texts _ | .things _ => fails flaw

end Value

end Handover
