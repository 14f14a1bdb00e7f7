import Handover.Proofs.Number.Rounding

/-!
# Numbers of a narrow format in a wider one

A wider format has every number of a narrower one (`BinaryFormat.Widens`), subnormal ones as normal
ones, so that going there loses nothing: the word there stands for the same value
(`Widens.agrees_decode_encode`). As the nearest word depends on the value only
(`BinaryFormat.encode_congr`), a word that goes to a wider format and comes back is the word that it
was (`Widens.convert_convert`), unless it is a not-a-number.
-/

set_option autoImplicit false
set_option relaxedAutoImplicit false

namespace Handover

/-- Whether two numbers have the same sign and the same value. A not-a-number has no value. -/
inductive BinaryNumber.Agrees : BinaryNumber → BinaryNumber → Prop
  | infinite (negative : Bool) : Agrees (.infinite negative) (.infinite negative)
  | finite (negative : Bool) {mantissa other : Nat} {exponent exponentOther : Int}
    (hvalue : (mantissa : ℚ) * 2 ^ exponent = other * 2 ^ exponentOther) :
    Agrees (.finite negative mantissa exponent) (.finite negative other exponentOther)

theorem BinaryNumber.Agrees.ne_nan {number other : BinaryNumber} (hagrees : number.Agrees other) :
    number ≠ .nan := by
  cases hagrees <;> simp

namespace BinaryFormat

variable {format : BinaryFormat}

/-- The nearest word of a number depends on its value only. -/
theorem encode_congr {number other : BinaryNumber} (hagrees : number.Agrees other) :
    format.encode number = format.encode other := by
  cases hagrees with
  | infinite => rfl
  | @finite negative mantissa other exponent exponentOther hvalue =>
    have hfirst := scaleDown_div mantissa 1 (-exponent)
    have hsecond := scaleDown_div other 1 (-exponentOther)
    have hden := scaleDown_pos mantissa Nat.one_pos (-exponent)
    have hdenOther := scaleDown_pos other Nat.one_pos (-exponentOther)
    rw [Nat.cast_one, div_one, zpow_neg, div_inv_eq_mul] at hfirst hsecond
    rw [hvalue, ← hsecond, div_eq_div_iff (Nat.cast_pos.mpr hden).ne'
      (Nat.cast_pos.mpr hdenOther).ne'] at hfirst
    unfold encode roundScaled round
    exact congrArg (_ + ·) (roundQuotient_congr hden hdenOther (by exact_mod_cast hfirst))

/-! ### Words that are put together -/

theorem infinityWord_lt_signWord (format : BinaryFormat) :
    format.infinityWord < format.signWord := by
  have hpower : 0 < 2 ^ format.exponentWidth := Nat.two_pow_pos _
  have hless : (2 ^ format.exponentWidth - 1) * 2 ^ format.fractionWidth <
      2 ^ format.exponentWidth * 2 ^ format.fractionWidth :=
    Nat.mul_lt_mul_of_pos_right (by omega) (Nat.two_pow_pos _)
  rwa [← Nat.pow_add] at hless

/-- A word is cut into its sign and the rest. -/
theorem sign_and_rest (negative : Bool) {rest : Nat} (hrest : rest < format.signWord) :
    decide (format.signWord ≤ (if negative then format.signWord else 0) + rest) = negative ∧
      ((if negative then format.signWord else 0) + rest) % format.signWord = rest := by
  cases negative with
  | false => simpa [Nat.mod_eq_of_lt hrest] using hrest
  | true => simp [Nat.mod_eq_of_lt hrest]

/-- The word of a number, put together from its parts, stands for the number. -/
theorem Holds.decode_word {mantissa : Nat} {exponent : Int}
    (hholds : format.Holds mantissa exponent) (negative : Bool) :
    format.decode ((if negative then format.signWord else 0) +
      ((exponent - format.minExponent).toNat * 2 ^ format.fractionWidth + mantissa)) =
        .finite negative mantissa exponent := by
  obtain ⟨hlow, hnormal, hhigh, hfinite⟩ := hholds
  obtain ⟨hsign, hrest⟩ := sign_and_rest negative (hfinite.trans format.infinityWord_lt_signWord)
  have hpositive : 0 < 2 ^ format.fractionWidth := Nat.two_pow_pos _
  rw [Nat.pow_succ'] at hhigh
  unfold decode
  simp only [hsign, hrest, Nat.pow_eq]
  have hfield : ((exponent - format.minExponent).toNat * 2 ^ format.fractionWidth + mantissa) /
      2 ^ format.fractionWidth = (exponent - format.minExponent).toNat +
        if 2 ^ format.fractionWidth ≤ mantissa then 1 else 0 := by
    rw [Nat.add_comm, Nat.add_mul_div_right _ _ hpositive, Nat.add_comm]
    congr 1
    split_ifs with hlarge
    · rw [Nat.div_eq_sub_div hpositive hlarge, Nat.div_eq_of_lt (by omega)]
    · exact Nat.div_eq_of_lt (by omega)
  have hfraction : ((exponent - format.minExponent).toNat * 2 ^ format.fractionWidth + mantissa) %
      2 ^ format.fractionWidth =
        if 2 ^ format.fractionWidth ≤ mantissa then mantissa - 2 ^ format.fractionWidth
        else mantissa := by
    rw [Nat.mul_comm, Nat.mul_add_mod]
    split_ifs with hlarge
    · rw [Nat.mod_eq_sub_mod hlarge, Nat.mod_eq_of_lt (by omega)]
    · exact Nat.mod_eq_of_lt (by omega)
  have hbelow : ((exponent - format.minExponent).toNat * 2 ^ format.fractionWidth + mantissa) /
      2 ^ format.fractionWidth < 2 ^ format.exponentWidth - 1 :=
    (Nat.div_lt_iff_lt_mul hpositive).mpr hfinite
  rw [if_neg hbelow.ne, hfield, hfraction]
  by_cases hlarge : 2 ^ format.fractionWidth ≤ mantissa
  · simp only [if_pos hlarge]
    rw [if_neg (Nat.succ_ne_zero _)]
    congr 1 <;> omega
  · obtain rfl : exponent = format.minExponent := hnormal.resolve_right hlarge
    simp [hlarge]

/-- The word of a number is read as the number. -/
theorem Holds.decode_encode {mantissa : Nat} {exponent : Int}
    (hholds : format.Holds mantissa exponent) (negative : Bool) :
    format.decode (format.encode (.finite negative mantissa exponent)) =
      .finite negative mantissa exponent := by
  rw [encode, roundScaled, round, hholds.roundQuotient_eq]
  exact hholds.decode_word negative

theorem decode_infinity (negative : Bool) :
    format.decode ((if negative then format.signWord else 0) + format.infinityWord) =
      .infinite negative := by
  obtain ⟨hsign, hrest⟩ := sign_and_rest negative format.infinityWord_lt_signWord
  have hfield : format.infinityWord / 2 ^ format.fractionWidth = 2 ^ format.exponentWidth - 1 :=
    Nat.mul_div_cancel _ (Nat.two_pow_pos _)
  have hfraction : format.infinityWord % 2 ^ format.fractionWidth = 0 := Nat.mul_mod_left ..
  unfold decode
  simp only [hsign, hrest, Nat.pow_eq, hfield, hfraction, if_true]

/-- The word of a number that rounds keeps to its sign and to infinity. -/
theorem exists_encode_eq (format : BinaryFormat) {number : BinaryNumber} (hnumber : number ≠ .nan) :
    ∃ (negative : Bool) (rest : Nat), rest ≤ format.infinityWord ∧
      format.encode number = (if negative then format.signWord else 0) + rest := by
  cases number with
  | nan => exact absurd rfl hnumber
  | infinite negative => exact ⟨negative, _, le_rfl, rfl⟩
  | finite negative mantissa exponent =>
    refine ⟨negative, _, ?_, rfl⟩
    unfold roundQuotient
    split_ifs
    · exact Nat.zero_le _
    · exact Nat.min_le_left ..

theorem encode_lt (format : BinaryFormat) {number : BinaryNumber} (hnumber : number ≠ .nan) :
    format.encode number < 2 * format.signWord := by
  obtain ⟨negative, rest, hrest, hencode⟩ := exists_encode_eq format hnumber
  have := format.infinityWord_lt_signWord
  rw [hencode]
  split_ifs <;> omega

/-- Rounding a number leaves a number. -/
theorem decode_encode_ne_nan {number : BinaryNumber} (hnumber : number ≠ .nan) :
    format.decode (format.encode number) ≠ .nan := by
  obtain ⟨negative, rest, hrest, hencode⟩ := exists_encode_eq format hnumber
  have hpositive : 0 < 2 ^ format.fractionWidth := Nat.two_pow_pos _
  rw [hencode]
  rcases hrest.eq_or_lt with rfl | hbelow
  · rw [decode_infinity]
    simp
  · obtain ⟨hsign, hmod⟩ := sign_and_rest negative (hbelow.trans format.infinityWord_lt_signWord)
    have hfield : rest / 2 ^ format.fractionWidth < 2 ^ format.exponentWidth - 1 :=
      (Nat.div_lt_iff_lt_mul hpositive).mpr hbelow
    unfold decode
    simp only [hsign, hmod, Nat.pow_eq, hfield.ne, if_false]
    split_ifs <;> simp

/-! ### Wider formats -/

/-- Whether every finite number of a format is a normal one of another format, or zero. -/
structure Widens (narrow wide : BinaryFormat) : Prop where
  digits : narrow.fractionWidth ≤ wide.fractionWidth
  least : wide.minExponent + wide.fractionWidth ≤ narrow.minExponent
  greatest : narrow.minExponent + (2 ^ narrow.exponentWidth : Nat) <
    wide.minExponent + (2 ^ wide.exponentWidth : Nat)

theorem half_widens_single : half.Widens single := ⟨by decide, by decide, by decide⟩

theorem half_widens_double : half.Widens double := ⟨by decide, by decide, by decide⟩

theorem single_widens_double : single.Widens double := ⟨by decide, by decide, by decide⟩

section Widens

variable {narrow wide : BinaryFormat} (hwidens : narrow.Widens wide)

include hwidens

/-- A wider format has the numbers of a narrower one. -/
theorem Widens.exists_holds {mantissa : Nat} {exponent : Int}
    (hholds : narrow.Holds mantissa exponent) :
    ∃ wideMantissa wideExponent, wide.Holds wideMantissa wideExponent ∧
      (mantissa : ℚ) * 2 ^ exponent = wideMantissa * 2 ^ wideExponent := by
  obtain ⟨hdigits, hleast, hgreatest⟩ := hwidens
  obtain ⟨hlow, -, hhigh, hfinite⟩ := hholds
  have hinfinity : wide.infinityWord = (2 ^ wide.exponentWidth - 1) * 2 ^ wide.fractionWidth := rfl
  have hpositive : 0 < 2 ^ wide.fractionWidth := Nat.two_pow_pos _
  have hexponent : (exponent - narrow.minExponent).toNat + 1 ≤ 2 ^ narrow.exponentWidth - 1 :=
    Nat.lt_of_mul_lt_mul_right (lt_of_le_of_lt (Nat.le_add_right _ _) hfinite)
  rcases Nat.eq_zero_or_pos mantissa with rfl | hmantissa
  · refine ⟨0, wide.minExponent, ⟨le_rfl, .inl rfl, Nat.two_pow_pos _, ?_⟩, by simp⟩
    rw [Int.sub_self, Int.toNat_zero, Nat.zero_mul, hinfinity]
    exact Nat.mul_pos (by omega) hpositive
  -- the mantissa is shifted until it has all the digits of the wider format
  have hlog : Nat.log2 mantissa ≤ narrow.fractionWidth :=
    Nat.lt_succ_iff.mp ((Nat.log2_lt hmantissa.ne').mpr hhigh)
  obtain ⟨shift, hshift⟩ := Nat.exists_eq_add_of_le (hlog.trans hdigits)
  have hleading : 2 ^ wide.fractionWidth ≤ mantissa * 2 ^ shift := by
    rw [hshift, Nat.pow_add]
    exact Nat.mul_le_mul_right _ (Nat.log2_self_le hmantissa.ne')
  have hfew : mantissa * 2 ^ shift < 2 ^ (wide.fractionWidth + 1) := by
    rw [hshift, Nat.add_right_comm, Nat.pow_add]
    exact Nat.mul_lt_mul_of_pos_right Nat.lt_log2_self (Nat.two_pow_pos _)
  refine ⟨mantissa * 2 ^ shift, exponent - shift, ⟨by omega, .inr hleading, hfew, ?_⟩, ?_⟩
  · have hplace : (exponent - shift - wide.minExponent).toNat + 2 ≤ 2 ^ wide.exponentWidth - 1 := by
      omega
    rw [hinfinity]
    rw [Nat.pow_succ'] at hfew
    calc (exponent - shift - wide.minExponent).toNat * 2 ^ wide.fractionWidth + mantissa * 2 ^ shift
        < (exponent - shift - wide.minExponent).toNat * 2 ^ wide.fractionWidth +
            2 * 2 ^ wide.fractionWidth := Nat.add_lt_add_left hfew _
      _ = ((exponent - shift - wide.minExponent).toNat + 2) * 2 ^ wide.fractionWidth :=
          (Nat.add_mul ..).symm
      _ ≤ (2 ^ wide.exponentWidth - 1) * 2 ^ wide.fractionWidth := Nat.mul_le_mul_right _ hplace
  · rw [Nat.cast_mul, Nat.cast_pow, Nat.cast_ofNat, mul_assoc, ← zpow_natCast,
      ← zpow_add₀ two_ne_zero, add_sub_cancel]

/-- The word of a wider format stands for the value of the narrower word. -/
theorem Widens.agrees_decode_encode {word : Nat} (hword : word < 2 * narrow.signWord)
    (hnumber : narrow.decode word ≠ .nan) :
    (wide.decode (wide.encode (narrow.decode word))).Agrees (narrow.decode word) := by
  cases hdecoded : narrow.decode word with
  | nan => exact absurd hdecoded hnumber
  | infinite negative =>
    rw [encode, decode_infinity]
    exact .infinite negative
  | finite negative mantissa exponent =>
    obtain ⟨wideMantissa, wideExponent, hholds, hvalue⟩ :=
      hwidens.exists_holds (decode_eq_finite hword hdecoded).1
    rw [encode_congr (.finite negative hvalue), hholds.decode_encode]
    exact .finite negative hvalue.symm

omit hwidens in
theorem convert_of_ne_nan (format target : BinaryFormat) {word : Nat}
    (hnumber : format.decode word ≠ .nan) :
    format.convert target word = target.encode (format.decode word) := by
  unfold convert
  cases hdecoded : format.decode word with
  | nan => exact absurd hdecoded hnumber
  | infinite | finite => rfl

/-- A word that goes to a wider format comes back as it was. -/
theorem Widens.convert_convert {word : Nat} (hword : word < 2 * narrow.signWord)
    (hnumber : narrow.decode word ≠ .nan) :
    wide.convert narrow (narrow.convert wide word) = word := by
  have hagrees := hwidens.agrees_decode_encode hword hnumber
  rw [convert_of_ne_nan narrow wide hnumber, convert_of_ne_nan wide narrow hagrees.ne_nan,
    encode_congr hagrees, encode_decode hword hnumber]

end Widens

end BinaryFormat

end Handover
