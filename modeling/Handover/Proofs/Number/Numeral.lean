import Handover.Proofs.Number.Decimal

/-!
# Numerals that read back

A numeral has a whole part and a fraction, an exponent or both (`Numeral`). The magnitude of a
finite number is written as a numeral (`exists_numeral`), and the nearest word of the decimal number
that the numeral stands for is the word that was written (`ofBits_toWord_decimal`).
-/

set_option autoImplicit false
set_option relaxedAutoImplicit false

namespace Handover

/-- A number as it is written without its sign. The whole part begins with a zero only if it is
zero, and a fraction or an exponent tells the number from an integer. -/
structure Numeral where
  whole : List Char
  fraction : List Char
  exponent : Option Int
  isDigit_whole : ∀ c ∈ whole, c.isDigit = true
  lead : whole = ['0'] ∨ whole ≠ [] ∧ whole.head? ≠ some '0'
  isDigit_fraction : ∀ c ∈ fraction, c.isDigit = true
  marked : fraction ≠ [] ∨ exponent.isSome = true

namespace Numeral

/-- The characters of a numeral. -/
def text (numeral : Numeral) : List Char :=
  numeral.whole ++ ((if numeral.fraction.isEmpty then [] else '.' :: numeral.fraction) ++
    (numeral.exponent.map exponentText).getD [])

/-- The decimal number that a numeral with a sign stands for. -/
def decimal (numeral : Numeral) (negative : Bool) : Decimal :=
  .ofParts negative numeral.whole numeral.fraction (numeral.exponent.getD 0)

theorem whole_ne_nil (numeral : Numeral) : numeral.whole ≠ [] := by
  rcases numeral.lead with hzero | ⟨hsome, -⟩
  · simp [hzero]
  · exact hsome

/-- A numeral begins with a digit. -/
theorem exists_text_eq_cons (numeral : Numeral) :
    ∃ c text, numeral.text = c :: text ∧ c.isDigit = true := by
  obtain ⟨c, digits, hwhole⟩ := List.exists_cons_of_ne_nil numeral.whole_ne_nil
  refine ⟨c, _, by rw [text, hwhole, List.cons_append], numeral.isDigit_whole c ?_⟩
  rw [hwhole]
  exact List.mem_cons_self ..

end Numeral

/-! ### Digits without final zeros -/

section Digits

variable {value : Nat}

/-- The digits of a positive natural without the zeros that end them. -/
theorem exists_digits_of_dropFinalZeros (hpositive : 0 < value) :
    ∃ digits : List Char, dropFinalZeros (decimalDigits value) = digits ∧ digits ≠ [] ∧
      digits.head? ≠ some '0' ∧ (∀ c ∈ digits, c.isDigit = true) ∧
      ∃ count, value = digitsValue digits * 10 ^ count ∧
        (decimalDigits value).length = digits.length + count := by
  obtain ⟨count, hcount⟩ := eq_dropFinalZeros_append (decimalDigits value)
  generalize dropFinalZeros (decimalDigits value) = digits at hcount
  have hvalue : value = digitsValue digits * 10 ^ count := by
    have := congrArg digitsValue hcount
    rwa [digitsValue_decimalDigits, digitsValue_append, digitsValue_replicate_zero,
      List.length_replicate, Nat.add_zero, Nat.mul_comm] at this
  have hsome : digits ≠ [] := by
    rintro rfl
    rw [hvalue] at hpositive
    simp [digitsValue] at hpositive
  refine ⟨digits, rfl, hsome, ?_, ?_, count, hvalue, ?_⟩
  · have hhead := head?_decimalDigits hpositive
    rwa [hcount, List.head?_append_of_ne_nil _ hsome] at hhead
  · intro c hc
    have hmem : c ∈ decimalDigits value := by
      rw [hcount]
      exact List.mem_append_left _ hc
    exact isDigit_of_mem_decimalDigits hmem
  · rw [hcount, List.length_append, List.length_replicate]

theorem isDigit_of_mem_replicate {count : Nat} {c : Char} (hc : c ∈ List.replicate count '0') :
    c.isDigit = true := by
  rw [List.eq_of_mem_replicate hc]
  rfl

end Digits

/-! ### Layouts -/

section Layouts

variable {digits : List Char} (hsome : digits ≠ []) (hlead : digits.head? ≠ some '0')
  (hdigits : ∀ c ∈ digits, c.isDigit = true)

include hsome hdigits in
/-- The point stands before the first digit, perhaps with zeros between them. -/
theorem exists_numeral_below {point : Int} (hpoint : point ≤ 0) :
    ∃ numeral : Numeral, positional digits point = numeral.text ∧
      ∀ format negative, (numeral.decimal negative).toWord format =
        Decimal.toWord format ⟨negative, digitsValue digits, point - digits.length⟩ := by
  have hfraction : ∀ c ∈ List.replicate (-point).toNat '0' ++ digits, c.isDigit = true := by
    intro c hc
    rcases List.mem_append.mp hc with hc | hc
    · exact isDigit_of_mem_replicate hc
    · exact hdigits c hc
  refine ⟨⟨['0'], _, none, by simp, .inl rfl, hfraction, .inl (by simp [hsome])⟩, ?_,
    fun format negative ↦ congrArg (Decimal.toWord format) ?_⟩
  · simp [positional, hpoint, Numeral.text, hsome]
  · have hvalue : digitsValue (['0'] ++ (List.replicate (-point).toNat '0' ++ digits)) =
        digitsValue digits := by
      rw [digitsValue_append, digitsValue_append, digitsValue_zero, digitsValue_replicate_zero,
        Nat.mul_zero, Nat.mul_zero, Nat.zero_add, Nat.zero_add]
    simp only [Numeral.decimal, Decimal.ofParts, hvalue, List.length_append,
      List.length_replicate, Option.getD_none, Decimal.mk.injEq, true_and]
    omega

include hsome hlead hdigits

/-- The point stands between two digits. -/
theorem exists_numeral_inside {point : Nat} (hpoint : 0 < point) (hinside : point < digits.length) :
    ∃ numeral : Numeral, positional digits point = numeral.text ∧
      ∀ format negative, (numeral.decimal negative).toWord format =
        Decimal.toWord format ⟨negative, digitsValue digits, point - digits.length⟩ := by
  have hwhole : digits.take point ≠ [] := by
    simp only [ne_eq, List.take_eq_nil_iff, hsome, or_false]
    omega
  have hfraction : digits.drop point ≠ [] := by
    simpa using hinside
  have hhead : (digits.take point).head? ≠ some '0' := by
    have happend : (digits.take point).head? = (digits.take point ++ digits.drop point).head? :=
      (List.head?_append_of_ne_nil _ hwhole).symm
    rwa [happend, List.take_append_drop]
  refine ⟨⟨digits.take point, digits.drop point, none,
    fun c hc ↦ hdigits c (List.mem_of_mem_take hc), .inr ⟨hwhole, hhead⟩,
    fun c hc ↦ hdigits c (List.mem_of_mem_drop hc), .inl hfraction⟩, ?_,
    fun format negative ↦ congrArg (Decimal.toWord format) ?_⟩
  · simp [positional, hpoint.ne', Numeral.text, Nat.sub_eq_zero_of_le hinside.le,
      Nat.not_le.mpr hinside]
  · simp only [Numeral.decimal, Decimal.ofParts, List.take_append_drop, List.length_drop,
      Option.getD_none, Decimal.mk.injEq, true_and]
    omega

/-- The point stands after the last digit, perhaps with zeros between them. -/
theorem exists_numeral_beyond {point : Nat} (hpoint : 0 < point) (hbeyond : digits.length ≤ point) :
    ∃ numeral : Numeral, positional digits point = numeral.text ∧
      ∀ format negative, (numeral.decimal negative).toWord format =
        Decimal.toWord format ⟨negative, digitsValue digits, point - digits.length⟩ := by
  have hwhole : ∀ c ∈ digits ++ List.replicate (point - digits.length) '0', c.isDigit = true := by
    intro c hc
    rcases List.mem_append.mp hc with hc | hc
    · exact hdigits c hc
    · exact isDigit_of_mem_replicate hc
  have hhead : (digits ++ List.replicate (point - digits.length) '0').head? ≠ some '0' := by
    rwa [List.head?_append_of_ne_nil _ hsome]
  refine ⟨⟨_, ['0'], none, hwhole, .inr ⟨by simp [hsome], hhead⟩, by simp, .inl (by simp)⟩, ?_,
    fun format negative ↦ ?_⟩
  · simp [positional, hpoint.ne', Numeral.text, List.take_of_length_le hbeyond, hbeyond]
  · rw [← Decimal.toWord_shift _ negative (digitsValue digits) _ (point - digits.length + 1)]
    refine congrArg (Decimal.toWord format) ?_
    simp only [Numeral.decimal, Decimal.ofParts, digitsValue_append, digitsValue_replicate_zero,
      digitsValue_zero, List.length_replicate, List.length_singleton, Option.getD_none,
      Decimal.mk.injEq, true_and, Nat.add_zero]
    refine ⟨by ring, ?_⟩
    omega

/-- The number `0.d₁d₂… · 10^point` written positionally is a numeral of its value. -/
theorem exists_numeral_positional (point : Int) :
    ∃ numeral : Numeral, positional digits point = numeral.text ∧
      ∀ format negative, (numeral.decimal negative).toWord format =
        Decimal.toWord format ⟨negative, digitsValue digits, point - digits.length⟩ := by
  rcases lt_or_ge 0 point with hpoint | hpoint
  · obtain ⟨place, rfl⟩ := Int.eq_ofNat_of_zero_le hpoint.le
    have hplace : 0 < place := Int.natCast_pos.mp hpoint
    rcases Nat.lt_or_ge place digits.length with hinside | hbeyond
    · exact exists_numeral_inside hsome hlead hdigits hplace hinside
    · exact exists_numeral_beyond hsome hlead hdigits hplace hbeyond
  · exact exists_numeral_below hsome hdigits hpoint

/-- The number `d₁.d₂… · 10^exponent` written with an exponent is a numeral of its value. -/
theorem exists_numeral_scientific (exponent : Int) :
    ∃ numeral : Numeral, scientific digits exponent = numeral.text ∧
      ∀ format negative, (numeral.decimal negative).toWord format =
        Decimal.toWord format ⟨negative, digitsValue digits, exponent + 1 - digits.length⟩ := by
  obtain ⟨first, rest, rfl⟩ := List.exists_cons_of_ne_nil hsome
  refine ⟨⟨[first], rest, some exponent, by simpa using hdigits first (List.mem_cons_self ..),
    .inr ⟨by simp, hlead⟩, fun c hc ↦ hdigits c (List.mem_cons_of_mem _ hc), .inr rfl⟩, ?_,
    fun format negative ↦ congrArg (Decimal.toWord format) ?_⟩
  · simp [scientific, Numeral.text]
  · simp only [Numeral.decimal, Decimal.ofParts, List.singleton_append, Option.getD_some,
      List.length_cons, Nat.cast_add, Nat.cast_one, Decimal.mk.injEq, true_and]
    omega

end Layouts

/-! ### Finite numbers -/

/-- The magnitude of a number that a word of 64 bits holds is written as a numeral, and with either
sign its nearest word is the one of the number. -/
theorem exists_numeral_of_holds {mantissa : Nat} {exponent : Int}
    (hholds : BinaryFormat.double.Holds mantissa exponent) :
    ∃ numeral : Numeral, shortestMagnitude .double mantissa exponent = numeral.text ∧
      ∀ negative, (numeral.decimal negative).toWord .double =
        BinaryFormat.double.encode (.finite negative mantissa exponent) := by
  unfold shortestMagnitude
  split_ifs with hzero
  · refine ⟨⟨['0'], ['0'], none, by simp, .inl rfl, by simp, .inl (by simp)⟩, rfl,
      fun negative ↦ ?_⟩
    have hscaled : (scaleDown 0 1 (-exponent)).1 = 0 := by
      unfold scaleDown
      split_ifs <;> simp
    simp [Numeral.decimal, Decimal.ofParts, Decimal.toWord, digitsValue, BinaryFormat.encode,
      BinaryFormat.roundScaled, BinaryFormat.round, BinaryFormat.roundQuotient, hzero, hscaled]
  · obtain ⟨hsign, hpositive, hword⟩ := toWord_shortestDecimal hholds (Nat.pos_of_ne_zero hzero)
    dsimp only
    generalize shortestDecimal .double mantissa exponent = decimal at hsign hpositive hword
    obtain ⟨_, value, place⟩ := decimal
    obtain rfl : _ = false := hsign
    dsimp only at hpositive ⊢
    obtain ⟨digits, hdropped, hsome, hlead, hdigits, count, hvalue, hlength⟩ :=
      exists_digits_of_dropFinalZeros hpositive
    rw [hdropped, hlength]
    have hencoded : ∀ negative, Decimal.toWord .double
        ⟨negative, digitsValue digits, place + count⟩ =
          BinaryFormat.double.encode (.finite negative mantissa exponent) := by
      intro negative
      have hshift := Decimal.toWord_shift .double negative (digitsValue digits) (place + count)
        count
      rw [← hvalue, Int.add_sub_cancel, Decimal.toWord_sign, hword] at hshift
      exact hshift.symm
    split_ifs
    · obtain ⟨numeral, htext, hnumeral⟩ := exists_numeral_positional hsome hlead hdigits
        (((digits.length + count : Nat) : Int) + place)
      refine ⟨numeral, htext, fun negative ↦ (hnumeral .double negative).trans ?_⟩
      rw [← hencoded]
      congr 2
      push_cast
      ring
    · obtain ⟨numeral, htext, hnumeral⟩ := exists_numeral_scientific hsome hlead hdigits
        (((digits.length + count : Nat) : Int) + place - 1)
      refine ⟨numeral, htext, fun negative ↦ (hnumeral .double negative).trans ?_⟩
      rw [← hencoded]
      congr 2
      push_cast
      ring

end Handover
