import Handover.Evaluation.Value
import Handover.Tensor.Elementwise

/-!
# Arithmetic on plain numbers

Numbers that are no array and no scalar are calculated with as they are (`Attr.calculate`): integers
are exact and have no bound, and any other number is a 64-bit floating-point one. A quotient of
integers is rounded once. Nothing is divided by zero.
-/

set_option autoImplicit false
set_option relaxedAutoImplicit false

namespace Handover.Attr

/-- The integer that a plain number is; a truth value is one or zero. -/
def integer? : Attr → Option Int
  | bool value => some (if value then 1 else 0)
  | int value => some value
  | _ => none

/-- A plain number as a floating-point number. -/
def asReal (value : Attr) : Result (Word .float64) :=
  match value with
  | real value => .ok value
  | value =>
    match value.integer? with
    | some exact => integerAsReal .float64 exact
    | none => fails .wrongKind

/-- The quotient of two integers. -/
def quotient (a b : Int) : Result (Word .float64) :=
  if b = 0 then fails .divisionByZero
  else
    let word := BinaryFormat.double.round (decide (a < 0) != decide (b < 0)) a.natAbs b.natAbs
    match BinaryFormat.double.decode word with
    | .infinite _ => fails .numberOutOfRange
    | _ => .ok (Word.ofBits .float64 word)

/-- The result of an operation on two floating-point numbers. A power that is too large fails. -/
def calculateReal (operation : BinaryOperation) (a b : Word .float64) : Result Attr :=
  match operation with
  | .divide => if b.isTrue then .ok (real (a.divide b)) else fails .divisionByZero
  | .power =>
    let result := a.power b
    match a.toNumber, result.toNumber with
    | .finite _ _ _, .infinite _ => fails .numberOutOfRange
    | _, _ => .ok (real result)
  | operation => .ok (real (operation.combine false a b))

/-- The result of an operation on two integers. Only a quotient and a negative power leave them. -/
def calculateExact (operation : BinaryOperation) (a b : Int) : Result Attr :=
  match operation with
  | .add => .ok (int (a + b))
  | .subtract => .ok (int (a - b))
  | .multiply => .ok (int (a * b))
  | .divide => do return real (← quotient a b)
  | .maximum => .ok (int (max a b))
  | .power =>
    if 0 ≤ b then .ok (int (Int.pow a b.toNat))
    else do calculateReal .power (← integerAsReal .float64 a) (← integerAsReal .float64 b)

/-- The result of an operation on two plain numbers. -/
def calculate (operation : BinaryOperation) (a b : Attr) : Result Attr :=
  match a.integer?, b.integer? with
  | some a, some b => calculateExact operation a b
  | _, _ =>
    if a.number?.isSome && b.number?.isSome then do
      calculateReal operation (← a.asReal) (← b.asReal)
    else fails .wrongKind

/-- A plain number with the opposite sign. -/
def opposite (value : Attr) : Result Attr :=
  match value with
  | real value => .ok (real value.negate)
  | value =>
    match value.integer? with
    | some exact => .ok (int (-exact))
    | none => fails .wrongKind

end Handover.Attr
