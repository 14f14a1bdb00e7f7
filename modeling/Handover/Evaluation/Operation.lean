import Handover.Evaluation.Gather
import Handover.Evaluation.Number

/-!
# Operations on two values

What an operation does depends on what it meets (`operate`). With an array, both operands are
gathered and meet element by element (`combine`). A scalar does the same, but multiplied with a
collection or a text it only counts how often that is repeated. Without either, collections and
texts are joined by addition and repeated by multiplication, and numbers are calculated with as they
are. An integer or a fraction by itself takes the type of the array or scalar that it meets.
-/

set_option autoImplicit false
set_option relaxedAutoImplicit false

namespace Handover

namespace Value

/-! ### Element by element -/

/-- The operand that a number without an element type is. -/
def untyped? : Value → Option Operand
  | plain (.int value) => some (.integer value)
  | plain (.real value) => some (.fraction value)
  | _ => none

/-- The flaw of an operation that meets texts, and perhaps numbers of a type beside them. -/
def textFlaw (operation : BinaryOperation) (beside : Option ElementType) : Flaw :=
  match operation with
  | .divide | .power => .wrongKind
  | .multiply =>
    match beside.map ElementType.kind with
    | some (.integer _ _) => .wrongKind
    | _ => .unsupportedOperands
  | _ => .unsupportedOperands

/-- The results of an operation on two gathered values. Things must fit together in shape before
they turn out to have no operations. -/
def combineGathered (operation : BinaryOperation) (a b : Gathered) : Result Strided :=
  match a, b with
  | .numbers a, .numbers b => Strided.binary operation a b
  | .numbers a, .texts _ => fails (textFlaw operation a.tensor.elementType)
  | .texts _, .numbers b => fails (textFlaw operation b.tensor.elementType)
  | .texts _, .texts _ => fails (textFlaw operation none)
  | a, b =>
    if (Shape.broadcast? a.shape b.shape).isSome then fails .wrongKind else fails .shapeMismatch

/-- The results of an operation on a gathered value and a number without an element type. -/
def combineUntyped (operation : BinaryOperation) (a : Gathered) (b : Operand) : Result Strided :=
  match a with
  | .numbers a => a.withOperand operation b
  | .texts _ => fails (textFlaw operation none)
  | .things _ => fails .wrongKind

/-- The results of an operation on a number without an element type and a gathered value. -/
def combineUntypedFirst (operation : BinaryOperation) (a : Operand) (b : Gathered) :
    Result Strided :=
  match b with
  | .numbers b => b.onOperand operation a
  | .texts _ => fails (textFlaw operation none)
  | .things _ => fails .wrongKind

/-- The results of an operation on two values, element by element. Of two numbers without an element
type the second takes the type that the first has by itself. -/
def combine (operation : BinaryOperation) (a b : Value) : Result Value := do
  match a.untyped?, b.untyped? with
  | some first, none => return ofComputed (← combineUntypedFirst operation first (← b.gather))
  | _, some second => return ofComputed (← combineUntyped operation (← a.gather) second)
  | none, none =>
    let first ← a.gather
    return ofComputed (← combineGathered operation first (← b.gather))

/-! ### Collections and texts -/

/-- The most items that a collection or a text may have. -/
def itemLimit : Nat := Nat.pow 2 24

/-- The items repeated so many times, never when the number is negative. -/
def repeated {α : Type} (items : List α) (count : Int) : Result (List α) :=
  if !ElementType.int64.holds count then fails .numberOutOfRange
  else if items.isEmpty then .ok []
  else if itemLimit < items.length * count.toNat then fails .tooLarge
  else .ok (List.replicate count.toNat items).flatten

/-- A collection or a text repeated as often as a value counts. -/
def repeatBy (value counter : Value) : Result Value :=
  match counter.count? with
  | none => fails .wrongKind
  | some count =>
    match value with
    | list items => do return list (← repeated items count)
    | tuple items => do return tuple (← repeated items count)
    | plain (.text content) => do
      return plain (.text (String.ofList (← repeated content.toList count)))
    | _ => fails .wrongKind

/-- Whether a value is a collection or a text. -/
def isSequence : Value → Bool
  | list _ | tuple _ | plain (.text _) => true
  | _ => false

/-- Whether a value is a text. -/
def isText : Value → Bool
  | plain (.text _) => true
  | _ => false

/-- The result of an operation on two values of which neither is an array or a scalar. -/
def operatePlain (operation : BinaryOperation) (a b : Value) : Result Value :=
  match operation, a, b with
  | .add, list first, list second => .ok (list (first ++ second))
  | .add, tuple first, tuple second => .ok (tuple (first ++ second))
  | .add, plain (.text first), plain (.text second) => .ok (plain (.text (first ++ second)))
  | operation, plain first, plain second =>
    if operation = .multiply && a.isSequence then a.repeatBy b
    else if operation = .multiply && b.isSequence then b.repeatBy a
    else do return plain (← first.calculate operation second)
  | .multiply, a, b => if a.isSequence then a.repeatBy b else b.repeatBy a
  | _, _, _ => fails .wrongKind

/-- The result of an operation on two values of which one is a scalar and neither is an array. -/
def operateScalar (operation : BinaryOperation) (a b : Value) : Result Value :=
  if operation = .multiply && a.isSequence then a.repeatBy b
  else if operation = .multiply && b.isSequence then b.repeatBy a
  else if operation = .add && a.isText then fails .wrongKind
  else combine operation a b

/-- The result of an operation on two values. -/
def operate (operation : BinaryOperation) (a b : Value) : Result Value :=
  if a.isArray || b.isArray then combine operation a b
  else if a.isScalar || b.isScalar then operateScalar operation a b
  else operatePlain operation a b

/-! ### Operations on one value -/

/-- The value with the opposite sign, which only numbers have. -/
def negate : Value → Result Value
  | array value => do return ofComputed (← value.negate)
  | scalar value => do
    return ofComputed (← (Strided.single value.elementType value.word).negate)
  | plain value => do return plain (← value.opposite)
  | list _ | tuple _ => fails .wrongKind

/-- The results of a function of floating-point numbers. -/
def mapReal (value : Value) (function : (t : ElementType) → Word t → Word t) : Result Value := do
  return ofComputed ((← value.gatherNumbers .wrongKind).mapReal function)

end Value

end Handover
