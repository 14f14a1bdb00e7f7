import Handover.Document.Reader
import Handover.Document.Writer
import Mathlib.Tactic.IntervalCases

/-!
# Texts in documents

A text is read back from its quoted form (`readText_quoted`), one character for each escape
(`readText?_escapeCharacter`). A character above `FFFF` is written as a pair of code units, which
are read as one character again (`escaped?_pair`).
-/

set_option autoImplicit false
set_option relaxedAutoImplicit false

namespace Handover.Document

/-! ### Code units -/

theorem hexValue?_hexDigit (value : Nat) : hexValue? (Text.hexDigit value) = some (value % 16) := by
  have hlt : value % 16 < 16 := Nat.mod_lt _ (by decide)
  unfold Text.hexDigit
  generalize value % 16 = digit at hlt
  interval_cases digit <;> rfl

theorem codeUnit?_hexDigits {unit : Nat} (hunit : unit < 0x10000) (rest : List Char) :
    codeUnit? (Text.hexDigits 4 unit ++ rest) = some (unit, rest) := by
  simp only [Text.hexDigits, List.nil_append, List.cons_append, codeUnit?, hexValue?_hexDigit,
    Option.bind_eq_bind, Option.bind_some, Option.pure_def, Option.some.injEq, Prod.mk.injEq,
    and_true]
  omega

/-- A code point that is a character is no surrogate. -/
theorem not_surrogate (c : Char) : c.toNat < 0xD800 ∨ 0xDFFF < c.toNat ∧ c.toNat < 0x110000 :=
  c.valid

theorem codePoint_toNat (c : Char) : codePoint c.toNat = c := by
  have hvalid := not_surrogate c
  rw [codePoint, if_neg (by omega), Char.ofNat_toNat]

/-! ### Escapes -/

theorem escaped?_unit (c : Char) (hnarrow : c.toNat < 0x10000) (rest : List Char) :
    escaped? ('u' :: Text.hexDigits 4 c.toNat ++ rest) = some (c, rest) := by
  have hvalid := not_surrogate c
  simp only [List.cons_append, escaped?, codeUnit?_hexDigits hnarrow, Option.bind_eq_bind,
    Option.bind_some, codePoint_toNat]
  rw [if_neg (by omega)]

theorem escaped?_surrogates {high low : Nat} (hhigh : 0xD800 ≤ high ∧ high ≤ 0xDBFF)
    (hlow : 0xDC00 ≤ low ∧ low ≤ 0xDFFF) (rest : List Char) :
    escaped? ('u' :: Text.hexDigits 4 high ++ (escapeUnit low ++ rest)) =
      some (codePoint (0x10000 + (high - 0xD800) * 0x400 + (low - 0xDC00)), rest) := by
  have hhighUnit := codeUnit?_hexDigits (by omega : high < 0x10000)
  have hlowUnit := codeUnit?_hexDigits (by omega : low < 0x10000)
  simp only [List.cons_append, escaped?, hhighUnit, Option.bind_eq_bind, Option.bind_some,
    escapeUnit, lowSurrogate?, hlowUnit]
  rw [if_pos hhigh, if_pos hlow]

/-- A pair of code units is read as the character that it writes. -/
theorem escaped?_pair (c : Char) (hwide : 0x10000 ≤ c.toNat) (rest : List Char) :
    escaped? ('u' :: Text.hexDigits 4 (0xD800 + (c.toNat - 0x10000) / 0x400) ++
      (escapeUnit (0xDC00 + (c.toNat - 0x10000) % 0x400) ++ rest)) = some (c, rest) := by
  have hvalid := not_surrogate c
  rw [escaped?_surrogates (by omega) (by omega)]
  have hcode : 0x10000 + (0xD800 + (c.toNat - 0x10000) / 0x400 - 0xD800) * 0x400 +
      (0xDC00 + (c.toNat - 0x10000) % 0x400 - 0xDC00) = c.toNat := by omega
  rw [hcode, codePoint_toNat]

/-- The reader takes one character from what is written for one. -/
theorem readText?_escapeCharacter (c : Char) (fuel : Nat) (rest : List Char) :
    readText? (fuel + 1) (escapeCharacter c ++ rest) =
      (readText? fuel rest).map fun found ↦ (c :: found.1, found.2) := by
  have hescape : ∀ text, escaped? text = some (c, rest) →
      readText? (fuel + 1) ('\\' :: text) =
        (readText? fuel rest).map fun found ↦ (c :: found.1, found.2) := by
    intro text htext
    rw [readText?, if_neg (by decide), if_pos rfl, htext, Option.bind_eq_bind, Option.bind_some]
    dsimp only
    cases readText? fuel rest <;> rfl
  unfold escapeCharacter
  split_ifs with hplain hline hreturn htab hfeed hback hshown
  · refine hescape _ ?_
    rcases hplain with rfl | rfl <;> rfl
  · subst hline
    exact hescape _ rfl
  · subst hreturn
    exact hescape _ rfl
  · subst htab
    exact hescape _ rfl
  · subst hfeed
    exact hescape _ rfl
  · subst hback
    exact hescape _ rfl
  · push Not at hplain
    simp only [List.singleton_append, readText?]
    rw [if_neg hplain.1, if_neg hplain.2, if_neg (by omega)]
    cases readText? fuel rest <;> rfl
  · unfold escapePoint
    split_ifs with hnarrow
    · exact hescape _ (escaped?_unit c hnarrow rest)
    · rw [List.append_assoc]
      exact hescape _ (escaped?_pair c (Nat.le_of_not_lt hnarrow) rest)

/-- A text is read back from its escapes up to the closing quote. -/
theorem readText?_escapes (characters : List Char) {fuel : Nat} (hfuel : characters.length < fuel)
    (rest : List Char) :
    readText? fuel (characters.flatMap escapeCharacter ++ '\x22' :: rest) =
      some (characters, rest) := by
  induction characters generalizing fuel with
  | nil =>
    obtain ⟨fuel, rfl⟩ := Nat.exists_eq_succ_of_ne_zero hfuel.ne'
    rfl
  | cons c characters ih =>
    obtain ⟨fuel, rfl⟩ := Nat.exists_eq_succ_of_ne_zero (Nat.ne_of_gt (Nat.zero_lt_of_lt hfuel))
    rw [List.flatMap_cons, List.append_assoc, readText?_escapeCharacter,
      ih (Nat.lt_of_succ_lt_succ hfuel)]
    rfl

theorem length_le_length_escapes (characters : List Char) :
    characters.length ≤ (characters.flatMap escapeCharacter).length := by
  induction characters with
  | nil => rfl
  | cons c characters ih =>
    have hone : 1 ≤ (escapeCharacter c).length := by
      unfold escapeCharacter
      split_ifs <;> simp [escapePoint, escapeUnit]
      split_ifs <;> simp
    rw [List.flatMap_cons, List.length_append, List.length_cons]
    omega

/-- A text is read back from its quoted form after the opening quote. -/
theorem readText_quoted (content : String) (rest : List Char) :
    readText (content.toList.flatMap escapeCharacter ++ '\x22' :: rest) = .ok (content, rest) := by
  have hlength := length_le_length_escapes content.toList
  unfold readText
  rw [readText?_escapes _ (by rw [List.length_append]; omega)]
  simp only [String.ofList_toList]

end Handover.Document
