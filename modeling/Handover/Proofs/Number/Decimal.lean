import Handover.Number.Numeral
import Handover.Proofs.Number.Rounding
import Mathlib.Data.List.TakeWhile
import Mathlib.Tactic.IntervalCases
import Mathlib.Tactic.NormNum

/-!
# Digits and decimal numbers

The digits of a natural are read back as the natural (`digitsValue_decimalDigits`). The nearest word
of a decimal number depends on its value only: zeros that are moved from the digits to the exponent
change nothing (`Decimal.toWord_shift`), and a sign changes the sign alone (`Decimal.toWord_sign`).
The decimal number with the fewest digits rounds back to the number it was found for
(`toWord_shortestDecimal`).
-/

set_option autoImplicit false
set_option relaxedAutoImplicit false

namespace Handover

/-! ### Digits -/

section Digits

theorem digitsValue_eq (digits : List Char) : digitsValue digits = Nat.ofDigitChars 10 digits 0 :=
  Nat.ofDigitChars_eq_foldl.symm

@[simp] theorem digitsValue_decimalDigits (value : Nat) :
    digitsValue (decimalDigits value) = value := by
  rw [digitsValue_eq]
  exact Nat.ofDigitChars_ten_toDigits

theorem digitsValue_append (digits others : List Char) :
    digitsValue (digits ++ others) =
      10 ^ others.length * digitsValue digits + digitsValue others := by
  rw [digitsValue_eq, Nat.ofDigitChars_append, Nat.ofDigitChars_eq_ofDigitChars_zero,
    digitsValue_eq, digitsValue_eq]

@[simp] theorem digitsValue_replicate_zero (count : Nat) :
    digitsValue (List.replicate count '0') = 0 := by
  rw [digitsValue_eq, Nat.ofDigitChars_replicate_zero, Nat.mul_zero]

@[simp] theorem digitsValue_zero : digitsValue ['0'] = 0 := rfl

theorem isDigit_of_mem_decimalDigits {value : Nat} {c : Char} (hc : c ∈ decimalDigits value) :
    c.isDigit = true :=
  Nat.isDigit_of_mem_toDigits (by decide) (by decide) hc

theorem decimalDigits_ne_nil (value : Nat) : decimalDigits value ≠ [] := Nat.toDigits_ne_nil

/-- A positive natural does not begin with a zero. -/
theorem head?_decimalDigits {value : Nat} (hpositive : 0 < value) :
    (decimalDigits value).head? ≠ some '0' := by
  induction value using Nat.strong_induction_on with
  | _ value ih =>
    unfold decimalDigits
    rcases Nat.lt_or_ge value 10 with hsmall | hlarge
    · rw [Nat.toDigits_of_lt_base hsmall]
      interval_cases value <;> decide
    · rw [Nat.toDigits_of_base_le (by decide) hlarge,
        List.head?_append_of_ne_nil _ Nat.toDigits_ne_nil]
      exact ih (value / 10) (by omega) (by omega)

/-- A factor of ten is a zero at the end. -/
theorem decimalDigits_mul_pow {value : Nat} (hpositive : 0 < value) (count : Nat) :
    decimalDigits (value * 10 ^ count) = decimalDigits value ++ List.replicate count '0' := by
  induction count with
  | zero => simp
  | succ count ih =>
    have hpower : 0 < value * 10 ^ count := Nat.mul_pos hpositive (Nat.pow_pos (by decide))
    have hlast := Nat.toDigits_append_toDigits (b := 10) (d := 0) (by decide) hpower (by decide)
    rw [Nat.add_zero, Nat.mul_comm 10, Nat.mul_assoc, ← Nat.pow_succ] at hlast
    rw [decimalDigits, ← hlast, ← decimalDigits, ih, Nat.toDigits_zero, List.append_assoc,
      List.replicate_succ']

theorem length_decimalDigits_le {value count : Nat} (hcount : 0 < count) :
    (decimalDigits value).length ≤ count ↔ value < 10 ^ count :=
  Nat.length_toDigits_le_iff (by decide) hcount

/-- Digits are some digits that do not end in a zero, and the zeros that end them. -/
theorem eq_dropFinalZeros_append (digits : List Char) :
    ∃ count, digits = dropFinalZeros digits ++ List.replicate count '0' := by
  refine ⟨(digits.reverse.takeWhile (· == '0')).length, ?_⟩
  have hzeros : digits.reverse.takeWhile (· == '0') =
      List.replicate (digits.reverse.takeWhile (· == '0')).length '0' := by
    refine List.eq_replicate_iff.mpr ⟨rfl, fun c hc ↦ ?_⟩
    exact eq_of_beq (List.mem_takeWhile_imp (p := (· == '0')) hc)
  have hsplit := congrArg List.reverse
    (List.takeWhile_append_dropWhile (p := (· == '0')) (l := digits.reverse))
  rw [List.reverse_append, List.reverse_reverse, hzeros, List.reverse_replicate] at hsplit
  exact hsplit.symm

end Digits

/-! ### Values of decimal numbers -/

theorem scaleTen_pos (digits : Nat) (exponent : Int) : 0 < (scaleTen digits exponent).2 := by
  unfold scaleTen
  split_ifs
  · exact Nat.one_pos
  · exact Nat.pow_pos (by decide)

theorem scaleTen_div (digits : Nat) (exponent : Int) :
    ((scaleTen digits exponent).1 : ℚ) / (scaleTen digits exponent).2 = digits * 10 ^ exponent := by
  unfold scaleTen
  split_ifs with hsign
  · obtain ⟨power, rfl⟩ := Int.eq_ofNat_of_zero_le hsign
    simp
  · obtain ⟨power, hpower⟩ := Int.eq_ofNat_of_zero_le (by omega : 0 ≤ -exponent)
    obtain rfl : exponent = -(power : Int) := by omega
    simp [div_eq_mul_inv]

/-- Two quotients of one value are equal crosswise. -/
theorem cross_eq_of_div_eq {num den other denOther : Nat} (hden : 0 < den) (hother : 0 < denOther)
    (hvalue : (num : ℚ) / den = (other : ℚ) / denOther) : num * denOther = other * den := by
  rw [div_eq_div_iff (Nat.cast_pos.mpr hden).ne' (Nat.cast_pos.mpr hother).ne'] at hvalue
  exact_mod_cast hvalue

namespace Decimal

variable {format : BinaryFormat}

/-- Zeros that are moved from the exponent to the digits do not change the nearest word. -/
theorem toWord_shift (format : BinaryFormat) (negative : Bool) (digits : Nat) (exponent : Int)
    (count : Nat) :
    toWord format ⟨negative, digits * 10 ^ count, exponent - count⟩ =
      toWord format ⟨negative, digits, exponent⟩ := by
  rcases Nat.eq_zero_or_pos digits with rfl | hpositive
  · simp [toWord]
  have hlength : ((decimalDigits (digits * 10 ^ count)).length : Int) + (exponent - count) =
      (decimalDigits digits).length + exponent := by
    rw [decimalDigits_mul_pow hpositive, List.length_append, List.length_replicate]
    push_cast
    ring
  have hzero : digits * 10 ^ count ≠ 0 :=
    (Nat.mul_pos hpositive (Nat.pow_pos (by decide))).ne'
  have hvalue : ((scaleTen (digits * 10 ^ count) (exponent - count)).1 : ℚ) /
      (scaleTen (digits * 10 ^ count) (exponent - count)).2 =
      ((scaleTen digits exponent).1 : ℚ) / (scaleTen digits exponent).2 := by
    rw [scaleTen_div, scaleTen_div, zpow_sub₀ (by norm_num : (10 : ℚ) ≠ 0), Nat.cast_mul,
      Nat.cast_pow, zpow_natCast, mul_assoc]
    congr 1
    exact mul_div_cancel₀ _ (by positivity)
  simp only [toWord, hlength, hzero, hpositive.ne', false_or, BinaryFormat.round]
  rw [BinaryFormat.roundQuotient_congr (scaleTen_pos _ _) (scaleTen_pos _ _)
    (cross_eq_of_div_eq (scaleTen_pos _ _) (scaleTen_pos _ _) hvalue)]

/-- A decimal number that is neither too large nor too small to be told apart has the word nearest
to its value. -/
theorem toWord_eq_roundQuotient {digits num den : Nat} {exponent : Int} (hdigits : digits ≠ 0)
    (hlow : -400 ≤ ((decimalDigits digits).length : Int) + exponent)
    (hhigh : ((decimalDigits digits).length : Int) + exponent ≤ 400) (hden : 0 < den)
    (hvalue : (digits : ℚ) * 10 ^ exponent = num / den) :
    toWord format ⟨false, digits, exponent⟩ = format.roundQuotient num den := by
  simp only [toWord]
  rw [if_neg (by omega), if_neg (by omega), BinaryFormat.round]
  simp only [Bool.false_eq_true, if_false, Nat.zero_add]
  exact BinaryFormat.roundQuotient_congr (scaleTen_pos _ _) hden
    (cross_eq_of_div_eq (scaleTen_pos _ _) hden ((scaleTen_div _ _).trans hvalue))

/-- A sign changes the sign of the nearest word alone. -/
theorem toWord_sign (negative : Bool) (digits : Nat) (exponent : Int) :
    toWord format ⟨negative, digits, exponent⟩ =
      (if negative then format.signWord else 0) + toWord format ⟨false, digits, exponent⟩ := by
  cases negative with
  | false => simp
  | true =>
    rw [if_pos rfl]
    unfold toWord
    dsimp only
    split_ifs <;> simp [BinaryFormat.round, BinaryFormat.encode]

end Decimal

/-! ### The fewest digits -/

section Shortest

variable {mantissa : Nat} {exponent : Int}

theorem minExponent_double : BinaryFormat.double.minExponent = -1074 := by decide

theorem Holds.exponent_bounds (hholds : BinaryFormat.double.Holds mantissa exponent) :
    -1074 ≤ exponent ∧ exponent ≤ 972 := by
  have hlow := hholds.low
  have hfinite := hholds.finite
  have hinfinity : BinaryFormat.double.infinityWord = 2047 * 2 ^ 52 := by decide
  have hwidth : BinaryFormat.double.fractionWidth = 52 := rfl
  rw [minExponent_double] at hlow hfinite
  rw [hinfinity, hwidth] at hfinite
  have hproduct : (exponent - -1074).toNat < 2047 := by
    by_contra hge
    have := Nat.mul_le_mul_right (2 ^ 52) (Nat.le_of_not_lt hge)
    omega
  omega

theorem ten_pow_le_five_pow {power : Nat} (hpower : 401 ≤ power) (hlimit : power ≤ 1203) :
    10 ^ (power - 401) ≤ 5 ^ power := by
  have hsplit : power - 401 + 401 = power := Nat.sub_add_cancel hpower
  calc 10 ^ (power - 401) = 5 ^ (power - 401) * 2 ^ (power - 401) := by rw [← Nat.mul_pow]
    _ ≤ 5 ^ (power - 401) * 5 ^ 401 := by
        refine Nat.mul_le_mul_left _ ?_
        calc 2 ^ (power - 401) ≤ 2 ^ (2 * 401) := pow_le_pow_right₀ (by decide) (by omega)
          _ = (2 ^ 2) ^ 401 := by rw [pow_mul]
          _ ≤ 5 ^ 401 := pow_le_pow_left₀ (by decide) (by decide) 401
    _ = 5 ^ power := by rw [← Nat.pow_add, hsplit]

/-- The number written out in full stays within the powers of ten that are told apart. -/
theorem toWord_exactDecimal (hholds : BinaryFormat.double.Holds mantissa exponent)
    (hmantissa : 0 < mantissa) :
    Decimal.toWord .double (exactDecimal mantissa exponent) =
      BinaryFormat.double.roundQuotient (scaleDown mantissa 1 (-exponent)).1
        (scaleDown mantissa 1 (-exponent)).2 := by
  obtain ⟨hlow, hexponent⟩ := Holds.exponent_bounds hholds
  have hhigh : mantissa < 2 ^ 53 := hholds.high
  unfold exactDecimal
  split_ifs with hsign
  · obtain ⟨power, rfl⟩ := Int.eq_ofNat_of_zero_le hsign
    have hdigits : mantissa * 2 ^ power < 10 ^ 400 :=
      calc mantissa * 2 ^ power < 2 ^ 53 * 2 ^ 972 :=
            Nat.mul_lt_mul_of_lt_of_le hhigh (Nat.pow_le_pow_right (by decide) (by omega))
              (by positivity)
        _ ≤ 10 ^ 400 := by decide +kernel
    have hlength := (length_decimalDigits_le (by decide)).mpr hdigits
    refine Decimal.toWord_eq_roundQuotient (Nat.mul_pos hmantissa (Nat.two_pow_pos _)).ne'
      (by omega) ?_ (scaleDown_pos _ Nat.one_pos _) ?_
    · rw [Int.toNat_natCast, Nat.pow_eq]
      omega
    · rw [scaleDown_div]
      simp
  · obtain ⟨power, hpower⟩ := Int.eq_ofNat_of_zero_le (by omega : 0 ≤ -exponent)
    obtain rfl : exponent = -(power : Int) := by omega
    have hdigits : mantissa * 5 ^ power < 10 ^ (400 + power) :=
      calc mantissa * 5 ^ power < 2 ^ 53 * 10 ^ power :=
            Nat.mul_lt_mul_of_lt_of_le hhigh (Nat.pow_le_pow_left (by decide) _) (by positivity)
        _ ≤ 10 ^ 400 * 10 ^ power := Nat.mul_le_mul_right _ (by decide +kernel)
        _ = 10 ^ (400 + power) := by rw [Nat.pow_add]
    have hlength := (length_decimalDigits_le (Nat.add_pos_left (by decide) power)).mpr hdigits
    -- A shorter number would lie below `5^power`.
    have hlong : power ≤ 400 + (decimalDigits (mantissa * 5 ^ power)).length := by
      by_contra hshort
      have hsome := List.length_pos_of_ne_nil (decimalDigits_ne_nil (mantissa * 5 ^ power))
      have hcount : (decimalDigits (mantissa * 5 ^ power)).length ≤ power - 401 := by omega
      have hvalue := (length_decimalDigits_le (by omega)).mp hcount
      have hlarge := ten_pow_le_five_pow (by omega : 401 ≤ power) (by omega)
      have := Nat.le_mul_of_pos_left (5 ^ power) hmantissa
      omega
    simp only [neg_neg, Int.toNat_natCast, Nat.pow_eq]
    refine Decimal.toWord_eq_roundQuotient (Nat.mul_pos hmantissa (by positivity)).ne' (by omega)
      (by omega) (scaleDown_pos _ Nat.one_pos _) ?_
    rw [scaleDown_div]
    simp only [zpow_neg, zpow_natCast, Nat.cast_mul, Nat.cast_pow, Nat.cast_ofNat,
      Nat.cast_one, div_one]
    rw [mul_assoc, show (10 : ℚ) = 5 * 2 by norm_num, mul_pow, mul_inv,
      mul_inv_cancel_left₀ (by positivity), div_eq_mul_inv]

/-- A neighbour that is found rounds to the word that it was found for. -/
theorem eq_of_neighbourAt? {format : BinaryFormat} {word num den : Nat} {place : Int}
    {decimal : Decimal} (hfound : neighbourAt? format word num den place = some decimal) :
    decimal.negative = false ∧ decimal.toWord format = word := by
  unfold neighbourAt? at hfound
  dsimp only at hfound
  split_ifs at hfound with hback _ hback hback
  all_goals
    obtain rfl := Option.some.inj hfound
    exact ⟨rfl, eq_of_beq hback⟩

/-- The decimal number with the fewest digits rounds back to the number that it was found for. -/
theorem toWord_shortestDecimal (hholds : BinaryFormat.double.Holds mantissa exponent)
    (hmantissa : 0 < mantissa) :
    (shortestDecimal .double mantissa exponent).negative = false ∧
      0 < (shortestDecimal .double mantissa exponent).digits ∧
      Decimal.toWord .double (shortestDecimal .double mantissa exponent) =
        BinaryFormat.double.roundQuotient (scaleDown mantissa 1 (-exponent)).1
          (scaleDown mantissa 1 (-exponent)).2 := by
  have hword := hholds.roundQuotient_eq
  have hexact := toWord_exactDecimal hholds hmantissa
  have hpositive : ∀ decimal : Decimal, decimal.negative = false →
      Decimal.toWord .double decimal = BinaryFormat.double.roundQuotient
        (scaleDown mantissa 1 (-exponent)).1 (scaleDown mantissa 1 (-exponent)).2 →
      0 < decimal.digits := by
    rintro ⟨negative, digits, place⟩ rfl hdecimal
    refine Nat.pos_of_ne_zero ?_
    rintro rfl
    rw [hword] at hdecimal
    have hzero : Decimal.toWord .double ⟨false, 0, place⟩ = 0 := by
      simp [Decimal.toWord, BinaryFormat.round, BinaryFormat.roundQuotient]
    omega
  have hfound : (shortestDecimal .double mantissa exponent).negative = false ∧
      Decimal.toWord .double (shortestDecimal .double mantissa exponent) =
        BinaryFormat.double.roundQuotient (scaleDown mantissa 1 (-exponent)).1
          (scaleDown mantissa 1 (-exponent)).2 := by
    unfold shortestDecimal
    dsimp only
    cases hattempts : List.findSome? _ (List.range 17) with
    | none =>
      rw [Option.getD_none]
      refine ⟨?_, hexact⟩
      unfold exactDecimal
      split_ifs <;> rfl
    | some decimal =>
      obtain ⟨count, _, hcount⟩ := List.exists_of_findSome?_eq_some hattempts
      exact eq_of_neighbourAt? hcount
  exact ⟨hfound.1, hpositive _ hfound.1 hfound.2, hfound.2⟩

end Shortest

end Handover
