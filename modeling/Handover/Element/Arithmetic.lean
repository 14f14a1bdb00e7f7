import Handover.Element.Conversion

/-!
# Arithmetic on elements

The operations on two elements of one type. Integers wrap at their width, floating-point results are
exact results rounded once, and truth values add by "or" and multiply by "and". Quotients, square
roots, exponentials and hyperbolic tangents are formed in a floating-point type.
-/

set_option autoImplicit false
set_option relaxedAutoImplicit false

namespace Handover.Word

variable {t : ElementType}

/-- The sum of two elements. -/
def add (a b : Word t) : Word t :=
  match t.kind with
  | .truth => BitVec.or a b
  | .integer _ _ => BitVec.add a b
  | .real _ => ofNumber t (a.toNumber.add b.toNumber)

/-- The difference of two elements. -/
def subtract (a b : Word t) : Word t :=
  match t.kind with
  | .real _ => ofNumber t (a.toNumber.subtract b.toNumber)
  | _ => BitVec.sub a b

/-- The product of two elements. -/
def multiply (a b : Word t) : Word t :=
  match t.kind with
  | .truth => BitVec.and a b
  | .integer _ _ => BitVec.mul a b
  | .real _ => ofNumber t (a.toNumber.multiply b.toNumber)

/-- The quotient of two elements of a floating-point type. -/
def divide (a b : Word t) : Word t :=
  match t.kind with
  | .real format => ofBits t (format.divide a.toNumber b.toNumber)
  | _ => 0

/-- The greater of two elements, the first of two equal ones; a not-a-number prevails. -/
def firstMaximum (a b : Word t) : Word t :=
  match t.kind with
  | .truth => BitVec.or a b
  | .integer _ _ => if b.toInt ≤ a.toInt then a else b
  | .real _ =>
    match a.toNumber, b.toNumber with
    | .nan, _ => a
    | _, .nan => b
    | numberA, numberB => if numberB.le numberA then a else b

/-- The greater of two elements that meet in two tensors. Of two zeros the narrow type gives the
first and the wider ones the second. -/
def maximum (a b : Word t) : Word t :=
  if a.toNumber.isZero && b.toNumber.isZero && t != .float16 then b else firstMaximum a b

/-- The element with the opposite sign. -/
def negate (a : Word t) : Word t :=
  match t.kind with
  | .real _ => ofNumber t a.toNumber.negate
  | _ => BitVec.neg a

/-- The square root of an element of a floating-point type. -/
def squareRoot (a : Word t) : Word t :=
  match t.kind with
  | .real format => ofBits t (format.squareRoot a.toNumber)
  | _ => 0

/-- An element of an integer type raised to a power, by repeated squaring. -/
def integerPower (a : Word t) (exponent : Nat) : Word t :=
  if exponent = 0 then ofInt t 1
  else
    let squared := integerPower (BitVec.mul a a) (exponent / 2)
    if exponent % 2 = 1 then BitVec.mul squared a else squared
termination_by exponent
decreasing_by omega

/-! ### Transcendental functions -/

/-- The machine number of an element. -/
def toFloat (a : Word t) : Float := Float.ofBits (UInt64.ofNat (a.convert .float64).toNat)

/-- The element of a floating-point type nearest to a machine number, which the narrow type comes to
by way of 32 bits. -/
def ofFloat (t : ElementType) (value : Float) : Word t :=
  let wide := ofBits .float64 value.toBits.toNat
  if t = .float16 then (wide.convert .float32).convert t else wide.convert t

/-- The exponential of an element. -/
def exponential (a : Word t) : Word t := ofFloat t a.toFloat.exp

/-- The hyperbolic tangent of an element. -/
def hyperbolicTangent (a : Word t) : Word t := ofFloat t a.toFloat.tanh

/-- An element raised to the power of another; integer powers are not negative. -/
def power (a b : Word t) : Word t :=
  match t.kind with
  | .real _ => ofFloat t (a.toFloat.pow b.toFloat)
  | _ => integerPower a b.toInt.toNat

/-- An element raised to a power that many elements are raised to. In the wider floating-point types
the powers minus one, zero, one half, one and two are quotients, one, square roots, the elements
themselves and products. -/
def steadyPower (a b : Word t) : Word t :=
  match t.kind with
  | .real format =>
    let exponent := b.toNumber
    let one := ofNumber t (.finite false 1 0)
    if format = .half then a.power b
    else if exponent.equals (.finite true 1 0) then one.divide a
    else if exponent.isZero then one
    else if exponent.equals (.finite false 1 (-1)) then a.squareRoot
    else if exponent.equals (.finite false 1 0) then a
    else if exponent.equals (.finite false 2 0) then a.multiply a
    else a.power b
  | _ => a.power b

end Handover.Word
