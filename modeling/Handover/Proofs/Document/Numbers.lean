import Handover.Document.Reader
import Handover.Document.Writer
import Handover.Proofs.Number.Numeral

/-!
# Numbers in documents

What is written for a number is read as the number, whatever follows that does not go on with it
(`EndsNumber`): integers by their digits (`readSimple_integerNumeral`), and numbers of 64 bits by
their numerals (`readSimple_numeral`), of which every not-a-number comes back as the plain one.
-/

set_option autoImplicit false
set_option relaxedAutoImplicit false

namespace Handover.Document

/-- A text that cannot go on with a number. -/
def EndsNumber (rest : List Char) : Prop :=
  ∀ c ∈ rest.head?, c.isDigit = false ∧ c ≠ '.' ∧ c ≠ 'e' ∧ c ≠ 'E'

variable {rest : List Char}

/-! ### Parts of a number -/

section Parts

theorem takeWhile_isDigit {digits : List Char} (hdigits : ∀ c ∈ digits, c.isDigit = true)
    (hrest : ∀ c ∈ rest.head?, c.isDigit = false) :
    (digits ++ rest).takeWhile Char.isDigit = digits := by
  rw [List.takeWhile_append_of_pos hdigits]
  cases rest with
  | nil => simp
  | cons c rest => simp [hrest c rfl]

theorem wholeDigits_append {whole : List Char} (hdigits : ∀ c ∈ whole, c.isDigit = true)
    (hlead : whole = ['0'] ∨ whole ≠ [] ∧ whole.head? ≠ some '0')
    (hrest : ∀ c ∈ rest.head?, c.isDigit = false) : wholeDigits (whole ++ rest) = whole := by
  rcases hlead with rfl | ⟨hsome, hhead⟩
  · rfl
  · obtain ⟨c, digits, rfl⟩ := List.exists_cons_of_ne_nil hsome
    have hc : c ≠ '0' := by simpa using hhead
    unfold wholeDigits
    split
    · rename_i heq
      exact absurd (List.cons.inj heq).1 hc
    · exact takeWhile_isDigit hdigits hrest

theorem fractionDigits_of_ends (hrest : EndsNumber rest ∨ rest.head? = some 'e') :
    fractionDigits rest = ([], rest) := by
  unfold fractionDigits
  split
  · rcases hrest with hrest | hrest
    · exact absurd rfl (hrest '.' rfl).2.1
    · exact absurd hrest (by simp)
  · rfl

theorem fractionDigits_append {fraction : List Char} (hsome : fraction ≠ [])
    (hdigits : ∀ c ∈ fraction, c.isDigit = true) (hrest : ∀ c ∈ rest.head?, c.isDigit = false) :
    fractionDigits ('.' :: fraction ++ rest) = (fraction, rest) := by
  simp only [List.cons_append, fractionDigits, takeWhile_isDigit hdigits hrest]
  rw [if_neg (by simpa using hsome), List.drop_left]

theorem exponentDigits_of_ends (hrest : EndsNumber rest) : exponentDigits rest = (none, rest) := by
  cases rest with
  | nil => rfl
  | cons c rest =>
    have hc := hrest c rfl
    simp only [exponentDigits]
    rw [if_neg (by tauto)]

/-- The digits of an exponent, of which there are two at least. -/
theorem exists_exponent_digits (exponent : Int) :
    ∃ digits : List Char,
      exponentText exponent = 'e' :: (if exponent < 0 then '-' else '+') :: digits ∧
      digits ≠ [] ∧ (∀ c ∈ digits, c.isDigit = true) ∧ digitsValue digits = exponent.natAbs := by
  refine ⟨_, rfl, ?_, ?_, ?_⟩
  · split_ifs
    · simp
    · exact decimalDigits_ne_nil _
  · intro c hc
    split_ifs at hc
    · rcases List.mem_cons.mp hc with rfl | hc
      · rfl
      · exact isDigit_of_mem_decimalDigits hc
    · exact isDigit_of_mem_decimalDigits hc
  · split_ifs
    · rw [← List.singleton_append, digitsValue_append, digitsValue_zero, digitsValue_decimalDigits,
        Nat.mul_zero, Nat.zero_add]
    · exact digitsValue_decimalDigits _

theorem exponentDigits_exponentText (exponent : Int) (hrest : EndsNumber rest) :
    exponentDigits (exponentText exponent ++ rest) = (some exponent, rest) := by
  obtain ⟨digits, htext, hsome, hdigits, hvalue⟩ := exists_exponent_digits exponent
  have hsign : takeSign ((if exponent < 0 then '-' else '+') :: (digits ++ rest)) =
      (decide (exponent < 0), digits ++ rest) := by
    split_ifs with hnegative <;> simp [takeSign, hnegative]
  rw [htext, List.cons_append, List.cons_append, exponentDigits, if_pos (.inl rfl), hsign]
  dsimp only
  rw [takeWhile_isDigit hdigits fun c hc ↦ (hrest c hc).1, if_neg (by simpa using hsome), hvalue,
    List.drop_left, Prod.mk.injEq, Option.some.injEq]
  refine ⟨?_, rfl⟩
  simp only [decide_eq_true_eq]
  split_ifs <;> omega

end Parts

/-! ### Numbers -/

/-- The number that is read from a sign and the parts after it. -/
theorem readNumber_of_parts (negative : Bool)
    {unsigned whole fraction after afterFraction : List Char} {exponent : Option Int}
    (hwhole : wholeDigits unsigned = whole) (hsome : whole ≠ [])
    (hfraction : fractionDigits (unsigned.drop whole.length) = (fraction, afterFraction))
    (hexponent : exponentDigits afterFraction = (exponent, after)) :
    readNumber (if negative then '-' :: unsigned else unsigned) =
      if fraction.isEmpty && exponent.isNone then
        if integerDigitLimit < whole.length then .error .integerTooLong
        else .ok (.int (if negative then -(digitsValue whole : Int) else digitsValue whole), after)
      else .ok (.real (Word.ofBits .float64 ((Decimal.ofParts negative whole fraction
        (exponent.getD 0)).toWord .double)), after) := by
  have hunsigned : ∀ text, unsigned ≠ '-' :: text := by
    rintro text rfl
    exact hsome (hwhole.symm.trans (by simp [wholeDigits]))
  cases negative with
  | true =>
    simp only [if_true, readNumber, hwhole, hfraction, hexponent]
    rw [if_neg (by simpa using hsome)]
  | false =>
    simp only [Bool.false_eq_true, if_false, readNumber, hwhole, hfraction, hexponent]
    rw [if_neg (by simpa using hsome)]

theorem readNumber_numeral (numeral : Numeral) (negative : Bool) (hrest : EndsNumber rest) :
    readNumber (if negative then '-' :: (numeral.text ++ rest) else numeral.text ++ rest) =
      .ok (.real (Word.ofBits .float64 ((numeral.decimal negative).toWord .double)), rest) := by
  have hsome := numeral.whole_ne_nil
  obtain ⟨whole, fraction, exponent, hwhole, hlead, hfraction, hmarked⟩ := numeral
  -- What is read of the exponent, and what stands where it begins.
  have hexponent : exponentDigits ((exponent.map exponentText).getD [] ++ rest) =
      (exponent, rest) := by
    cases exponent with
    | none => exact exponentDigits_of_ends hrest
    | some exponent => exact exponentDigits_exponentText exponent hrest
  have hends : EndsNumber ((exponent.map exponentText).getD [] ++ rest) ∨
      ((exponent.map exponentText).getD [] ++ rest).head? = some 'e' := by
    cases exponent with
    | none => exact .inl hrest
    | some exponent => exact .inr rfl
  have hdigitExponent : ∀ c ∈ ((exponent.map exponentText).getD [] ++ rest).head?,
      c.isDigit = false := by
    intro c hc
    rcases hends with hends | hends
    · exact (hends c hc).1
    · obtain rfl := Option.some.inj (hends.symm.trans hc)
      rfl
  -- What is read of the fraction.
  have hafter : fractionDigits ((if fraction.isEmpty then [] else '.' :: fraction) ++
      ((exponent.map exponentText).getD [] ++ rest)) =
        (fraction, (exponent.map exponentText).getD [] ++ rest) := by
    split_ifs with hnone
    · obtain rfl := List.isEmpty_iff.mp hnone
      exact fractionDigits_of_ends hends
    · exact fractionDigits_append (by simpa using hnone) hfraction hdigitExponent
  have hdigitFraction : ∀ c ∈ ((if fraction.isEmpty then [] else '.' :: fraction) ++
      ((exponent.map exponentText).getD [] ++ rest)).head?, c.isDigit = false := by
    split_ifs
    · exact hdigitExponent
    · rintro c ⟨⟩
      rfl
  simp only [Numeral.text, List.append_assoc]
  rw [readNumber_of_parts _ (wholeDigits_append hwhole hlead hdigitFraction) hsome
    (by rw [List.drop_left]; exact hafter) hexponent]
  have hreal : (fraction.isEmpty && exponent.isNone) = false := by
    rcases hmarked with hmarked | hmarked
    · simp [hmarked]
    · simp [hmarked]
  rw [hreal, if_neg (by decide)]
  rfl

theorem readNumber_integerNumeral (value : Int)
    (hlimit : (decimalDigits value.natAbs).length ≤ integerDigitLimit) (hrest : EndsNumber rest) :
    readNumber (integerNumeral value ++ rest) = .ok (.int value, rest) := by
  have hdigits : ∀ c ∈ decimalDigits value.natAbs, c.isDigit = true :=
    fun c hc ↦ isDigit_of_mem_decimalDigits hc
  have hlead : decimalDigits value.natAbs = ['0'] ∨ decimalDigits value.natAbs ≠ [] ∧
      (decimalDigits value.natAbs).head? ≠ some '0' := by
    rcases Nat.eq_zero_or_pos value.natAbs with hzero | hpositive
    · exact .inl (by rw [hzero]; rfl)
    · exact .inr ⟨decimalDigits_ne_nil _, head?_decimalDigits hpositive⟩
  have hwhole := wholeDigits_append hdigits hlead fun c hc ↦ (hrest c hc).1
  have hread := readNumber_of_parts (decide (value < 0)) hwhole
    (decimalDigits_ne_nil _) (by rw [List.drop_left]; exact fractionDigits_of_ends (.inl hrest))
    (exponentDigits_of_ends hrest)
  simp only [List.isEmpty_nil, Option.isNone_none, Bool.and_self, if_true,
    digitsValue_decimalDigits] at hread
  rw [if_neg (Nat.not_lt.mpr hlimit)] at hread
  have htext : integerNumeral value ++ rest =
      if decide (value < 0) then '-' :: (decimalDigits value.natAbs ++ rest)
      else decimalDigits value.natAbs ++ rest := by
    simp only [integerNumeral, decide_eq_true_eq]
    split_ifs <;> rfl
  rw [htext, hread]
  simp only [decide_eq_true_eq]
  congr 3
  split_ifs <;> omega

/-! ### Values without parts -/

section Values

/-- A text that begins with a digit, or with a sign and a digit, is no word. -/
theorem readSimple_of_isDigit {c : Char} (hc : c.isDigit = true) (negative : Bool)
    (text : List Char) :
    readSimple (if negative then '-' :: c :: text else c :: text) =
      readNumber (if negative then '-' :: c :: text else c :: text) := by
  have hnone : words.findSome? (fun word ↦ (dropLead? word.1.toList
      (if negative then '-' :: c :: text else c :: text)).map fun rest ↦ (word.2, rest)) =
        none := by
    have hne : ∀ d : Char, d.isDigit = false → d ≠ c := by
      rintro d hd rfl
      exact absurd hc (by simp [hd])
    rw [List.findSome?_eq_none_iff]
    intro word hword
    simp only [words, List.mem_cons, List.not_mem_nil, or_false] at hword
    rcases hword with rfl | rfl | rfl | rfl | rfl | rfl <;> cases negative <;> simp [dropLead?]
    all_goals exact fun heq ↦ absurd heq (hne _ rfl)
  unfold readSimple
  rw [hnone]

theorem readSimple_null (rest : List Char) :
    readSimple ("null".toList ++ rest) = .ok (.null, rest) := rfl

theorem readSimple_bool (value : Bool) (rest : List Char) :
    readSimple ((if value then "true" else "false").toList ++ rest) = .ok (.bool value, rest) := by
  cases value <;> rfl

/-- An integer is read from its digits. -/
theorem readSimple_integerNumeral (value : Int)
    (hlimit : (decimalDigits value.natAbs).length ≤ integerDigitLimit) (hrest : EndsNumber rest) :
    readSimple (integerNumeral value ++ rest) = .ok (.int value, rest) := by
  rw [← readNumber_integerNumeral value hlimit hrest]
  obtain ⟨c, digits, hdigits⟩ := List.exists_cons_of_ne_nil (decimalDigits_ne_nil value.natAbs)
  have hmem : c ∈ decimalDigits value.natAbs := hdigits ▸ List.mem_cons_self ..
  have hc : c.isDigit = true := isDigit_of_mem_decimalDigits hmem
  have htext : integerNumeral value ++ rest =
      if decide (value < 0) then '-' :: c :: (digits ++ rest) else c :: (digits ++ rest) := by
    simp only [integerNumeral, hdigits, decide_eq_true_eq]
    split_ifs <;> rfl
  rw [htext]
  exact readSimple_of_isDigit hc _ _

/-- A number of 64 bits is read from its numeral. -/
theorem readSimple_numeral (word : Word .float64) (hrest : EndsNumber rest) :
    readSimple (numeral word.toNumber ++ rest) =
      .ok (.real (Word.ofNumber .float64 word.toNumber), rest) := by
  cases hnumber : word.toNumber with
  | nan => rfl
  | infinite negative => cases negative <;> rfl
  | finite negative mantissa exponent =>
    obtain ⟨hholds, -⟩ := BinaryFormat.decode_eq_finite word.isLt hnumber
    obtain ⟨written, hmagnitude, hword⟩ := exists_numeral_of_holds hholds
    obtain ⟨c, text, htext, hc⟩ := written.exists_text_eq_cons
    have hread := readNumber_numeral written negative hrest
    rw [htext, List.cons_append, ← readSimple_of_isDigit hc, hword] at hread
    have hcharacters : numeral (.finite negative mantissa exponent) ++ rest =
        if negative then '-' :: c :: (text ++ rest) else c :: (text ++ rest) := by
      rw [← List.cons_append, ← htext]
      simp only [numeral, shortestNumeral, String.toList_ofList, hmagnitude]
      split_ifs <;> rfl
    rw [hcharacters]
    exact hread

end Values

end Handover.Document
