import Handover.Number.Binary
import Mathlib.Data.Int.Log
import Mathlib.Tactic.Ring
import Mathlib.Data.Rat.Floor
import Mathlib.Algebra.Order.Field.Rat
import Mathlib.Algebra.Order.Field.Power
import Mathlib.Tactic.Positivity

/-!
# Rounding to a binary format

The nearest word of a quotient depends on the value of the quotient only
(`BinaryFormat.roundQuotient_congr`): the exponent of its last place is a binary logarithm
(`floorLog2_eq_log`), and the rest of the rounding is a rounding of quotients to naturals
(`roundHalfEven_congr`). A number that a word stands for is its own nearest number, so encoding a
decoded word gives the word again (`BinaryFormat.encode_decode`).
-/

set_option autoImplicit false
set_option relaxedAutoImplicit false

namespace Handover

/-! ### Rounding to naturals -/

theorem roundHalfEven_mul (num den : Nat) {factor : Nat} (hfactor : 0 < factor) :
    roundHalfEven (num * factor) (den * factor) = roundHalfEven num den := by
  have hless : 2 * (num % den * factor) < den * factor ↔ 2 * (num % den) < den := by
    rw [← Nat.mul_assoc]
    exact Nat.mul_lt_mul_right hfactor
  have hequal : 2 * (num % den * factor) = den * factor ↔ 2 * (num % den) = den := by
    rw [← Nat.mul_assoc]
    exact Nat.mul_left_inj hfactor.ne'
  simp only [roundHalfEven, Nat.mul_div_mul_right _ _ hfactor, Nat.mul_mod_mul_right, hless, hequal]

/-- The natural nearest to a quotient depends on the value of the quotient only. -/
theorem roundHalfEven_congr {num den other denOther : Nat} (hden : 0 < den) (hother : 0 < denOther)
    (hvalue : num * denOther = other * den) :
    roundHalfEven num den = roundHalfEven other denOther := by
  rw [← roundHalfEven_mul num den hother, ← roundHalfEven_mul other denOther hden, hvalue,
    Nat.mul_comm den]

theorem roundHalfEven_one (num : Nat) : roundHalfEven num 1 = num := by
  simp [roundHalfEven, Nat.mod_one]

/-! ### Powers of two -/

theorem scaleDown_pos (num : Nat) {den : Nat} (hden : 0 < den) (exponent : Int) :
    0 < (scaleDown num den exponent).2 := by
  unfold scaleDown
  split_ifs
  · exact Nat.mul_pos hden (Nat.pow_pos (by decide))
  · exact hden

/-- The quotient that is scaled. -/
theorem scaleDown_div (num den : Nat) (exponent : Int) :
    ((scaleDown num den exponent).1 : ℚ) / (scaleDown num den exponent).2 =
      (num : ℚ) / den / 2 ^ exponent := by
  unfold scaleDown
  split_ifs with hsign
  · obtain ⟨power, rfl⟩ := Int.eq_ofNat_of_zero_le hsign
    simp [div_div]
  · obtain ⟨power, hpower⟩ := Int.eq_ofNat_of_zero_le (by omega : 0 ≤ -exponent)
    obtain rfl : exponent = -(power : Int) := by omega
    simp [zpow_neg, mul_div_right_comm]

theorem two_zpow_le_iff {value : ℚ} (hvalue : 0 < value) (exponent : Int) :
    (2 : ℚ) ^ exponent ≤ value ↔ exponent ≤ Int.log 2 value :=
  Int.zpow_le_iff_le_log (by decide) hvalue

theorem lt_two_zpow_iff {value : ℚ} (hvalue : 0 < value) (exponent : Int) :
    value < (2 : ℚ) ^ exponent ↔ Int.log 2 value < exponent :=
  Int.lt_zpow_iff_log_lt (by decide) hvalue

/-- The difference of the binary logarithms of two naturals is that of their quotient to within one
on either side. -/
theorem log2_sub_log2_bounds {num den : Nat} (hnum : 0 < num) (hden : 0 < den) :
    (2 : ℚ) ^ ((Nat.log2 num : Int) - (Nat.log2 den : Int) - 1) ≤ (num : ℚ) / den ∧
      (num : ℚ) / den < 2 ^ ((Nat.log2 num : Int) - (Nat.log2 den : Int) + 1) := by
  have hdivisor : (0 : ℚ) < den := Nat.cast_pos.mpr hden
  have hnumLow : (2 : ℚ) ^ (Nat.log2 num : Int) ≤ num := by
    exact_mod_cast Nat.log2_self_le hnum.ne'
  have hnumHigh : (num : ℚ) < 2 ^ ((Nat.log2 num : Int) + 1) := by
    exact_mod_cast Nat.lt_log2_self (n := num)
  have hdenLow : (2 : ℚ) ^ (Nat.log2 den : Int) ≤ den := by
    exact_mod_cast Nat.log2_self_le hden.ne'
  have hdenHigh : (den : ℚ) ≤ 2 ^ ((Nat.log2 den : Int) + 1) := by
    exact_mod_cast (Nat.lt_log2_self (n := den)).le
  have hadd (a b : Int) : (2 : ℚ) ^ a * 2 ^ b = 2 ^ (a + b) :=
    (zpow_add₀ (by norm_num : (2 : ℚ) ≠ 0) a b).symm
  constructor
  · rw [le_div_iff₀ hdivisor]
    calc (2 : ℚ) ^ ((Nat.log2 num : Int) - (Nat.log2 den : Int) - 1) * den
        ≤ 2 ^ ((Nat.log2 num : Int) - (Nat.log2 den : Int) - 1) * 2 ^ ((Nat.log2 den : Int) + 1) :=
          mul_le_mul_of_nonneg_left hdenHigh (by positivity)
      _ = 2 ^ (Nat.log2 num : Int) := by
          rw [hadd]
          congr 1
          ring
      _ ≤ num := hnumLow
  · rw [div_lt_iff₀ hdivisor]
    calc (num : ℚ) < 2 ^ ((Nat.log2 num : Int) + 1) := hnumHigh
      _ = 2 ^ ((Nat.log2 num : Int) - (Nat.log2 den : Int) + 1) * 2 ^ (Nat.log2 den : Int) := by
          rw [hadd]
          congr 1
          ring
      _ ≤ 2 ^ ((Nat.log2 num : Int) - (Nat.log2 den : Int) + 1) * den :=
          mul_le_mul_of_nonneg_left hdenLow (by positivity)

/-- The binary logarithm of a quotient, rounded down. -/
theorem floorLog2_eq_log {num den : Nat} (hnum : 0 < num) (hden : 0 < den) :
    floorLog2 num den = Int.log 2 ((num : ℚ) / den) := by
  have hquotient : (0 : ℚ) < (num : ℚ) / den :=
    div_pos (Nat.cast_pos.mpr hnum) (Nat.cast_pos.mpr hden)
  obtain ⟨hlow, hhigh⟩ := log2_sub_log2_bounds hnum hden
  rw [two_zpow_le_iff hquotient] at hlow
  rw [lt_two_zpow_iff hquotient] at hhigh
  have hreached : (scaleDown num den (Nat.log2 num - Nat.log2 den : Int)).2 ≤
      (scaleDown num den (Nat.log2 num - Nat.log2 den : Int)).1 ↔
      (Nat.log2 num - Nat.log2 den : Int) ≤ Int.log 2 ((num : ℚ) / den) := by
    have hpositive : (0 : ℚ) < (scaleDown num den (Nat.log2 num - Nat.log2 den : Int)).2 :=
      Nat.cast_pos.mpr (scaleDown_pos num hden _)
    have hcast (m n : Nat) : (m : ℚ) ≤ n ↔ m ≤ n := Nat.cast_le
    rw [← two_zpow_le_iff hquotient, ← hcast, ← one_le_div hpositive, scaleDown_div,
      one_le_div (by positivity : (0 : ℚ) < 2 ^ (Nat.log2 num - Nat.log2 den : Int))]
  unfold floorLog2
  simp only [hreached]
  split_ifs <;> omega

/-! ### Words -/

namespace BinaryFormat

variable {format : BinaryFormat}

/-- The nearest word of a quotient depends on the value of the quotient only. -/
theorem roundQuotient_congr {num den other denOther : Nat} (hden : 0 < den) (hother : 0 < denOther)
    (hvalue : num * denOther = other * den) :
    format.roundQuotient num den = format.roundQuotient other denOther := by
  rcases Nat.eq_zero_or_pos num with rfl | hnum
  · rw [Nat.zero_mul, eq_comm, Nat.mul_eq_zero] at hvalue
    rw [hvalue.resolve_right hden.ne']
    rfl
  have hpositive : 0 < other := by
    refine Nat.pos_of_ne_zero ?_
    rintro rfl
    rw [Nat.zero_mul] at hvalue
    exact (Nat.mul_pos hnum hother).ne' hvalue
  have hlog : floorLog2 num den = floorLog2 other denOther := by
    rw [floorLog2_eq_log hnum hden, floorLog2_eq_log hpositive hother]
    congr 1
    rw [div_eq_div_iff (by positivity) (by positivity)]
    exact_mod_cast hvalue
  have hscaled (exponent : Int) :
      (scaleDown num den exponent).1 * (scaleDown other denOther exponent).2 =
      (scaleDown other denOther exponent).1 * (scaleDown num den exponent).2 := by
    unfold scaleDown
    split_ifs
    · rw [← Nat.mul_assoc, hvalue, Nat.mul_assoc]
    · rw [Nat.mul_right_comm, hvalue, Nat.mul_right_comm]
  simp only [roundQuotient, hnum.ne', hpositive.ne', if_false, hlog]
  rw [roundHalfEven_congr (scaleDown_pos num hden _) (scaleDown_pos other hother _) (hscaled _)]

/-- Whether `mantissa · 2^exponent` is how a word below infinity is decoded. -/
structure Holds (format : BinaryFormat) (mantissa : Nat) (exponent : Int) : Prop where
  low : format.minExponent ≤ exponent
  normal : exponent = format.minExponent ∨ 2 ^ format.fractionWidth ≤ mantissa
  high : mantissa < 2 ^ (format.fractionWidth + 1)
  finite : (exponent - format.minExponent).toNat * 2 ^ format.fractionWidth + mantissa <
    format.infinityWord

section Nearest

variable {mantissa num den : Nat} {exponent : Int} (hden : 0 < den)
  (hvalue : (num : ℚ) / den = mantissa * 2 ^ exponent)

include hden hvalue

/-- The last place of a number that a word stands for is the exponent of that word. -/
theorem Holds.max_floorLog2_eq (hholds : format.Holds mantissa exponent) (hnum : 0 < num) :
    max format.minExponent (floorLog2 num den - (format.fractionWidth : Int)) = exponent := by
  have hquotient : (0 : ℚ) < (num : ℚ) / den :=
    div_pos (Nat.cast_pos.mpr hnum) (Nat.cast_pos.mpr hden)
  have hadd (a b : Int) : (2 : ℚ) ^ a * 2 ^ b = 2 ^ (a + b) :=
    (zpow_add₀ (by norm_num : (2 : ℚ) ≠ 0) a b).symm
  rw [floorLog2_eq_log hnum hden]
  have hupper : Int.log 2 ((num : ℚ) / den) < exponent + format.fractionWidth + 1 := by
    rw [← lt_two_zpow_iff hquotient, hvalue]
    have hhigh : (mantissa : ℚ) < 2 ^ ((format.fractionWidth : Int) + 1) := by
      exact_mod_cast hholds.high
    calc (mantissa : ℚ) * 2 ^ exponent
        < 2 ^ ((format.fractionWidth : Int) + 1) * 2 ^ exponent :=
          mul_lt_mul_of_pos_right hhigh (by positivity)
      _ = 2 ^ (exponent + format.fractionWidth + 1) := by
          rw [hadd]
          congr 1
          ring
  have hlow := hholds.low
  rcases hholds.normal with hleast | hnormal
  · omega
  · have hlower : exponent + format.fractionWidth ≤ Int.log 2 ((num : ℚ) / den) := by
      rw [← two_zpow_le_iff hquotient, hvalue]
      have hmantissa : (2 : ℚ) ^ (format.fractionWidth : Int) ≤ mantissa := by
        exact_mod_cast hnormal
      calc (2 : ℚ) ^ (exponent + format.fractionWidth)
          = 2 ^ (format.fractionWidth : Int) * 2 ^ exponent := by rw [hadd, add_comm]
        _ ≤ (mantissa : ℚ) * 2 ^ exponent :=
            mul_le_mul_of_nonneg_right hmantissa (by positivity)
    omega

/-- Scaled to the exponent of a word, its number is the mantissa. -/
theorem roundHalfEven_scaleDown :
    roundHalfEven (scaleDown num den exponent).1 (scaleDown num den exponent).2 = mantissa := by
  have hscaled := scaleDown_div num den exponent
  have hpositive := scaleDown_pos num hden exponent
  rw [hvalue, mul_div_cancel_right₀ _ (by positivity),
    div_eq_iff (Nat.cast_pos.mpr hpositive).ne'] at hscaled
  have hproduct : (scaleDown num den exponent).1 * 1 =
      mantissa * (scaleDown num den exponent).2 := by
    rw [Nat.mul_one]
    exact_mod_cast hscaled
  rw [roundHalfEven_congr hpositive Nat.one_pos hproduct, roundHalfEven_one]

end Nearest

/-- A number that a word stands for is its own nearest number. -/
theorem Holds.roundQuotient_eq {mantissa : Nat} {exponent : Int}
    (hholds : format.Holds mantissa exponent) :
    format.roundQuotient (scaleDown mantissa 1 (-exponent)).1 (scaleDown mantissa 1 (-exponent)).2 =
      (exponent - format.minExponent).toNat * 2 ^ format.fractionWidth + mantissa := by
  have hvalue := scaleDown_div mantissa 1 (-exponent)
  have hden := scaleDown_pos mantissa Nat.one_pos (-exponent)
  generalize scaleDown mantissa 1 (-exponent) = exact at hvalue hden
  obtain ⟨num, den⟩ := exact
  dsimp only at hvalue hden ⊢
  rw [Nat.cast_one, div_one, zpow_neg, div_inv_eq_mul] at hvalue
  have hdivisor : (den : ℚ) ≠ 0 := (Nat.cast_pos.mpr hden).ne'
  rcases Nat.eq_zero_or_pos mantissa with rfl | hmantissa
  · rw [Nat.cast_zero, zero_mul, div_eq_zero_iff] at hvalue
    have hnum : num = 0 := Nat.cast_eq_zero.mp (hvalue.resolve_right hdivisor)
    have hexponent := hholds.normal.resolve_right (by simp)
    simp [roundQuotient, hnum, hexponent]
  have hnum : 0 < num := by
    refine Nat.pos_of_ne_zero ?_
    rintro rfl
    rw [Nat.cast_zero, zero_div] at hvalue
    exact (by positivity : (mantissa : ℚ) * 2 ^ exponent ≠ 0) hvalue.symm
  simp only [roundQuotient, hnum.ne', if_false, hholds.max_floorLog2_eq hden hvalue hnum,
    roundHalfEven_scaleDown hden hvalue, Nat.pow_eq]
  exact Nat.min_eq_right hholds.finite.le

/-- A word is its sign and the rest. -/
theorem eq_sign_add_mod {word : Nat} (hword : word < 2 * format.signWord) :
    word = (if format.signWord ≤ word then format.signWord else 0) + word % format.signWord := by
  split_ifs with hsign
  · rw [Nat.mod_eq_sub_mod hsign, Nat.mod_eq_of_lt (by omega)]
    omega
  · rw [Nat.mod_eq_of_lt (by omega), Nat.zero_add]

/-- The exponent field of a word, its fraction, and the word below its sign put together from
both. -/
theorem magnitude_eq (format : BinaryFormat) (word : Nat) :
    word % format.signWord / 2 ^ format.fractionWidth < 2 ^ format.exponentWidth ∧
      word % format.signWord % 2 ^ format.fractionWidth < 2 ^ format.fractionWidth ∧
      word % format.signWord = word % format.signWord / 2 ^ format.fractionWidth *
        2 ^ format.fractionWidth + word % format.signWord % 2 ^ format.fractionWidth := by
  have hpositive : 0 < 2 ^ format.fractionWidth := Nat.two_pow_pos _
  have hsign : format.signWord = 2 ^ format.fractionWidth * 2 ^ format.exponentWidth := by
    rw [signWord, Nat.pow_eq, Nat.pow_add, Nat.mul_comm]
  refine ⟨Nat.div_lt_of_lt_mul ?_, Nat.mod_lt _ hpositive, (Nat.div_add_mod' _ _).symm⟩
  rw [← hsign]
  exact Nat.mod_lt _ (by rw [hsign]; exact Nat.mul_pos hpositive (Nat.two_pow_pos _))

/-- What a word that stands for a finite number is made of. -/
theorem decode_eq_finite {word : Nat} (hword : word < 2 * format.signWord) {negative : Bool}
    {mantissa : Nat} {exponent : Int}
    (hnumber : format.decode word = .finite negative mantissa exponent) :
    format.Holds mantissa exponent ∧ word = (if negative then format.signWord else 0) +
      ((exponent - format.minExponent).toNat * 2 ^ format.fractionWidth + mantissa) := by
  obtain ⟨hfield, hfraction, hmagnitude⟩ := magnitude_eq format word
  have hsum := eq_sign_add_mod hword
  unfold decode at hnumber
  simp only [Nat.pow_eq] at hnumber
  generalize word % format.signWord / 2 ^ format.fractionWidth = field at *
  generalize word % format.signWord % 2 ^ format.fractionWidth = fraction at *
  have hinfinity : format.infinityWord =
      (2 ^ format.exponentWidth - 1) * 2 ^ format.fractionWidth := rfl
  have hpower : 2 ^ (format.fractionWidth + 1) = 2 * 2 ^ format.fractionWidth := Nat.pow_succ'
  split_ifs at hnumber with hspecial hzero hsubnormal
  · obtain ⟨rfl, rfl, rfl⟩ := BinaryNumber.finite.inj hnumber
    refine ⟨⟨le_rfl, .inl rfl, by omega, ?_⟩, ?_⟩
    · have hone : 1 * 2 ^ format.fractionWidth ≤
          (2 ^ format.exponentWidth - 1) * 2 ^ format.fractionWidth :=
        Nat.mul_le_mul_right _ (by omega)
      rw [hinfinity, Int.sub_self, Int.toNat_zero]
      omega
    · rw [hmagnitude, hsubnormal] at hsum
      simpa using hsum
  · obtain ⟨rfl, rfl, rfl⟩ := BinaryNumber.finite.inj hnumber
    have hexponent : (format.minExponent + (field : Int) - 1 - format.minExponent).toNat =
        field - 1 := by omega
    have hjoined : (field - 1) * 2 ^ format.fractionWidth + (2 ^ format.fractionWidth + fraction) =
        field * 2 ^ format.fractionWidth + fraction := by
      rw [← Nat.add_assoc, ← Nat.succ_mul, Nat.succ_eq_add_one, Nat.sub_add_cancel (by omega)]
    refine ⟨⟨by omega, .inr (by omega), by omega, ?_⟩, ?_⟩
    · have hnext : (field + 1) * 2 ^ format.fractionWidth ≤
          (2 ^ format.exponentWidth - 1) * 2 ^ format.fractionWidth :=
        Nat.mul_le_mul_right _ (by omega)
      rw [Nat.succ_mul] at hnext
      rw [hexponent, hjoined, hinfinity]
      omega
    · rw [hexponent, hjoined, ← hmagnitude]
      simpa using hsum

/-- Encoding the number that a word stands for gives the word. -/
theorem encode_decode {word : Nat} (hword : word < 2 * format.signWord)
    (hnumber : format.decode word ≠ .nan) : format.encode (format.decode word) = word := by
  cases hdecoded : format.decode word with
  | nan => exact absurd hdecoded hnumber
  | finite negative mantissa exponent =>
    obtain ⟨hholds, hvalue⟩ := decode_eq_finite hword hdecoded
    rw [encode, roundScaled, round, hholds.roundQuotient_eq, ← hvalue]
  | infinite negative =>
    obtain ⟨-, -, hmagnitude⟩ := magnitude_eq format word
    unfold decode at hdecoded
    simp only [Nat.pow_eq] at hdecoded
    split_ifs at hdecoded with hspecial hzero
    obtain rfl := BinaryNumber.infinite.inj hdecoded
    rw [hspecial, hzero, Nat.add_zero] at hmagnitude
    have hsum := eq_sign_add_mod hword
    rw [hmagnitude] at hsum
    rw [encode, infinityWord]
    simpa using hsum.symm

end BinaryFormat

end Handover
