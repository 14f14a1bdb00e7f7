import Handover.Proofs.Document.Numbers

/-!
# Numbers in literals

An unsigned number is written in decimal digits, as an integer in another base, or with a point, an
exponent or both, and single underscores may stand between its digits (`numberOf?`). It takes up all
characters that can go on with a number (`readNumber?`). A natural is read from its decimal digits,
if they are not too many (`readNumber?_decimalDigits`), and the word nearest to a numeral from the
numeral (`readNumber?_numeral`), up to a mark that closes or separates values.
-/

set_option autoImplicit false
set_option relaxedAutoImplicit false

namespace Handover.Literal

/-! ### The grammar of numbers -/

section Grammar

/-- Digits without the underscores between them, each of which has a digit on either side. The run
stands after a digit, or where it may begin with an underscore, if `after`. -/
def dropUnderscores? (isDigit : Char → Bool) : Bool → List Char → Option (List Char)
  | _, [] => some []
  | after, c :: rest =>
    if c = '_' then
      if after && rest.head?.any isDigit then dropUnderscores? isDigit false rest else none
    else (dropUnderscores? isDigit (isDigit c) rest).map (c :: ·)

/-- The value of a digit of a base, which is sixteen at most. -/
def digitIn? (base : Nat) (c : Char) : Option Nat := (Document.hexValue? c).filter (· < base)

/-- The natural that is written by the digits after a letter for their base. -/
def naturalIn? (base : Nat) (text : List Char) : Option Nat := do
  let digits ← dropUnderscores? (fun c ↦ (digitIn? base c).isSome) true text
  if digits.isEmpty then none
  else digits.foldlM (fun total c ↦ (digitIn? base c).map (base * total + ·)) 0

/-- The number that is written in decimal digits: an integer, which begins with a zero only if it is
zero and has no more digits than one may be read from, or the 64-bit number nearest to what is
written with a point, an exponent or both. -/
def decimalOf? (text : List Char) : Option Attr := do
  let text ← dropUnderscores? Char.isDigit false text
  if text ≠ [] ∧ text.all Char.isDigit then
    if text.head? = some '0' then if digitsValue text = 0 then some (.int 0) else none
    else if integerDigitLimit < text.length then none
    else some (.int (digitsValue text))
  else
    let decimal ← unsignedOfText? false text
    return .real (Word.ofBits .float64 (decimal.toWord .double))

/-- The base that a letter after a leading zero stands for. -/
def baseOf? (c : Char) : Option Nat :=
  if c = 'x' ∨ c = 'X' then some 16
  else if c = 'o' ∨ c = 'O' then some 8
  else if c = 'b' ∨ c = 'B' then some 2
  else none

/-- The unsigned number that a text writes. -/
def numberOf? (text : List Char) : Option Attr :=
  match text with
  | '0' :: c :: digits =>
    match baseOf? c with
    | some base => (naturalIn? base digits).map fun value ↦ .int value
    | none => decimalOf? text
  | _ => decimalOf? text

/-- Whether a character goes on with a number after another one: a letter, a digit, an underscore or
a point, and a sign after the letter of an exponent. -/
def goesOn (before c : Char) : Bool :=
  c.isAlphanum || c == '_' || c == '.' ||
    ((c == '+' || c == '-') && (before == 'e' || before == 'E'))

/-- The characters that go on with a number after another one, with what follows them. -/
def takeNumber : Char → List Char → List Char × List Char
  | _, [] => ([], [])
  | before, c :: rest =>
    if goesOn before c then
      let (taken, after) := takeNumber c rest
      (c :: taken, after)
    else ([], c :: rest)

/-- The unsigned number at the start of a text, with what follows it. -/
def readNumber? : List Char → Option (Attr × List Char)
  | [] => none
  | c :: rest =>
    let (taken, after) := takeNumber c rest
    (numberOf? (c :: taken)).map fun value ↦ (value, after)

end Grammar

/-! ### Runs of characters -/

section Runs

/-- A text that no token goes on into: it is empty or begins with a mark that closes or separates
values. -/
def Closes (rest : List Char) : Prop := ∀ c ∈ rest.head?, c ∈ [',', ':', ')', ']', '\x7d']

theorem closes_nil : Closes [] := fun _ hc ↦ absurd hc (by simp)

theorem closes_cons {c : Char} (hc : c ∈ [',', ':', ')', ']', '\x7d']) (rest : List Char) :
    Closes (c :: rest) := by
  rintro d ⟨⟩
  exact hc

/-- What holds of no mark does not hold of what follows. -/
theorem Closes.eq_false {rest : List Char} (hrest : Closes rest) {p : Char → Bool}
    (hp : [',', ':', ')', ']', '\x7d'].any p = false) : ∀ c ∈ rest.head?, p c = false :=
  fun c hc ↦ Bool.eq_false_iff.mpr (List.any_eq_false.mp hp c (hrest c hc))

/-- A run of characters of one kind is told apart from what follows it. -/
theorem takeWhile_and_dropWhile_append {p : Char → Bool} {run : List Char}
    (hrun : ∀ c ∈ run, p c = true) {rest : List Char} (hrest : ∀ c ∈ rest.head?, p c = false) :
    (run ++ rest).takeWhile p = run ∧ (run ++ rest).dropWhile p = rest := by
  rw [List.takeWhile_append_of_pos hrun, List.dropWhile_append_of_pos hrun]
  cases rest with
  | nil => simp
  | cons c rest => simp [hrest c rfl]

theorem goesOn_of_isDigit (before : Char) {c : Char} (hc : c.isDigit = true) :
    goesOn before c = true := by
  simp [goesOn, Char.isAlphanum, hc]

/-- A run of characters of which each goes on after the one before it is taken as a whole. -/
theorem takeNumber_append {before : Char} {text rest : List Char}
    (hrun : (before :: text).IsChain fun b c ↦ goesOn b c = true) (hrest : Closes rest) :
    takeNumber before (text ++ rest) = (text, rest) := by
  induction text generalizing before with
  | nil =>
    cases rest with
    | nil => rfl
    | cons c rest =>
      have hstop : goesOn before c = false := hrest.eq_false rfl c rfl
      rw [List.nil_append, takeNumber, hstop]
      rfl
  | cons c text ih =>
    rw [List.isChain_cons_cons] at hrun
    rw [List.cons_append, takeNumber, hrun.1, if_pos rfl, ih hrun.2]

/-- A number takes up all of such a run. -/
theorem readNumber?_append {text rest : List Char} (hsome : text ≠ [])
    (hrun : text.IsChain fun b c ↦ goesOn b c = true) (hrest : Closes rest) :
    readNumber? (text ++ rest) = (numberOf? text).map fun value ↦ (value, rest) := by
  obtain ⟨c, text, rfl⟩ := List.exists_cons_of_ne_nil hsome
  rw [List.cons_append, readNumber?, takeNumber_append hrun hrest]

theorem isChain_of_forall (before : Char) {text : List Char}
    (htext : ∀ c ∈ text, ∀ b, goesOn b c = true) :
    (before :: text).IsChain fun b c ↦ goesOn b c = true := by
  induction text generalizing before with
  | nil => exact List.isChain_singleton _
  | cons c text ih =>
    obtain ⟨hc, hrest⟩ := List.forall_mem_cons.mp htext
    exact List.isChain_cons_cons.mpr ⟨hc before, ih c hrest⟩

end Runs

/-! ### Decimal digits and numerals -/

section Decimals

/-- Whether a character occurs in decimal digits or in a numeral. -/
def IsDecimal (c : Char) : Prop := c.isDigit = true ∨ c ∈ ['.', 'e', '+', '-']

theorem dropUnderscores?_of_not_mem {isDigit : Char → Bool} {after : Bool} {text : List Char}
    (htext : '_' ∉ text) : dropUnderscores? isDigit after text = some text := by
  induction text generalizing after with
  | nil => rfl
  | cons c text ih =>
    rw [List.mem_cons, not_or] at htext
    rw [dropUnderscores?, if_neg (Ne.symm htext.1), ih htext.2]
    rfl

/-- Neither an underscore nor the letter of a base occurs in a decimal number. -/
theorem IsDecimal.ne_underscore_and_baseOf? {c : Char} (hc : IsDecimal c) :
    c ≠ '_' ∧ baseOf? c = none := by
  have hne : ∀ d : Char, d.isDigit = false → d ∉ ['.', 'e', '+', '-'] → c ≠ d := by
    rintro d hdigit hmark rfl
    rcases hc with hc | hc
    · exact Bool.false_ne_true (hdigit.symm.trans hc)
    · exact hmark hc
  refine ⟨hne '_' rfl (by decide), ?_⟩
  simp [baseOf?, hne 'x' rfl (by decide), hne 'X' rfl (by decide), hne 'o' rfl (by decide),
    hne 'O' rfl (by decide), hne 'b' rfl (by decide), hne 'B' rfl (by decide)]

theorem numberOf?_of_isDecimal {text : List Char} (htext : ∀ c ∈ text, IsDecimal c) :
    numberOf? text = decimalOf? text := by
  unfold numberOf?
  split
  · rename_i c digits
    rw [(htext c (by simp)).ne_underscore_and_baseOf?.2]
  · rfl

theorem dropUnderscores?_of_isDecimal {text : List Char} (htext : ∀ c ∈ text, IsDecimal c)
    (isDigit : Char → Bool) (after : Bool) : dropUnderscores? isDigit after text = some text :=
  dropUnderscores?_of_not_mem fun hmem ↦ (htext _ hmem).ne_underscore_and_baseOf?.1 rfl

/-- A natural is read from its digits. Assumes: it has not too many. -/
theorem numberOf?_decimalDigits {value : Nat}
    (hshort : (decimalDigits value).length ≤ integerDigitLimit) :
    numberOf? (decimalDigits value) = some (.int value) := by
  have hdigits : ∀ c ∈ decimalDigits value, c.isDigit = true :=
    fun c hc ↦ isDigit_of_mem_decimalDigits hc
  have hdecimal : ∀ c ∈ decimalDigits value, IsDecimal c := fun c hc ↦ .inl (hdigits c hc)
  rw [numberOf?_of_isDecimal hdecimal, decimalOf?, dropUnderscores?_of_isDecimal hdecimal]
  simp only [Option.bind_eq_bind, Option.bind_some, digitsValue_decimalDigits]
  rw [if_pos ⟨decimalDigits_ne_nil value, List.all_eq_true.mpr hdigits⟩]
  split_ifs with hhead hvalue
  · rw [hvalue]
    rfl
  · exact absurd hhead (head?_decimalDigits (Nat.pos_of_ne_zero hvalue))
  · omega
  · rfl

theorem isDecimal_of_mem_numeral {numeral : Numeral} {c : Char} (hc : c ∈ numeral.text) :
    IsDecimal c := by
  rw [Numeral.text, List.mem_append, List.mem_append] at hc
  rcases hc with hc | hc | hc
  · exact .inl (numeral.isDigit_whole c hc)
  · split_ifs at hc
    · cases hc
    · rcases List.mem_cons.mp hc with rfl | hc
      · exact .inr (by simp)
      · exact .inl (numeral.isDigit_fraction c hc)
  · cases hexponent : numeral.exponent with
    | none => simp [hexponent] at hc
    | some exponent =>
      obtain ⟨digits, htext, -, hdigits, -⟩ := Document.exists_exponent_digits exponent
      simp only [hexponent, Option.map_some, Option.getD_some, htext, List.mem_cons] at hc
      rcases hc with rfl | rfl | hc
      · exact .inr (by simp)
      · split_ifs <;> exact .inr (by simp)
      · exact .inl (hdigits c hc)

theorem readExponent?_exponent (exponent : Option Int) :
    readExponent? ((exponent.map exponentText).getD []) = some (exponent.getD 0) := by
  cases exponent with
  | none => rfl
  | some exponent =>
    obtain ⟨digits, htext, hsome, hdigits, hvalue⟩ := Document.exists_exponent_digits exponent
    have hsign : takeSign ((if exponent < 0 then '-' else '+') :: digits) =
        (decide (exponent < 0), digits) := by
      split_ifs with hnegative <;> simp [takeSign, hnegative]
    have hall : (digits.isEmpty || !digits.all Char.isDigit) = false := by
      simp [hsome, List.all_eq_true.mpr hdigits]
    simp only [Option.map_some, Option.getD_some, htext, readExponent?, true_or, if_true, hsign,
      hall, Bool.false_eq_true, if_false, decide_eq_true_eq, hvalue]
    split_ifs <;> congr 1 <;> omega

/-- A numeral is read as the decimal number that it stands for. -/
theorem unsignedOfText?_numeral (numeral : Numeral) :
    unsignedOfText? false numeral.text = some (numeral.decimal false) := by
  have hexponent := readExponent?_exponent numeral.exponent
  have hstop : ∀ c ∈ ((numeral.exponent.map exponentText).getD []).head?, c = 'e' := by
    cases numeral.exponent with
    | none => simp
    | some exponent => simp [exponentText]
  have hdigitExponent : ∀ c ∈ ((numeral.exponent.map exponentText).getD []).head?,
      c.isDigit = false := by
    intro c hc
    rw [hstop c hc]
    rfl
  have hdigitFraction : ∀ c ∈ ((if numeral.fraction.isEmpty then [] else
      '.' :: numeral.fraction) ++ (numeral.exponent.map exponentText).getD []).head?,
      c.isDigit = false := by
    split_ifs
    · exact hdigitExponent
    · rintro c ⟨⟩
      rfl
  have hwhole := takeWhile_and_dropWhile_append numeral.isDigit_whole hdigitFraction
  have hfractionDigits := takeWhile_and_dropWhile_append numeral.isDigit_fraction hdigitExponent
  unfold unsignedOfText? Numeral.text Numeral.decimal
  generalize (numeral.exponent.map exponentText).getD [] = exponent at *
  have hnonempty : numeral.whole.isEmpty = false := by simpa using numeral.whole_ne_nil
  simp only [hwhole.1, hwhole.2, hnonempty, Bool.false_and, Bool.false_eq_true, if_false]
  by_cases hfraction : numeral.fraction = []
  · have htake : takeFraction exponent = ([], exponent) := by
      unfold takeFraction
      split
      · exact absurd (hstop '.' rfl) (by decide)
      · rfl
    simp [hfraction, htake, hexponent]
  · simp [hfraction, takeFraction, hfractionDigits, hexponent]

/-- A numeral is read as the word nearest to what it stands for. -/
theorem numberOf?_numeral (numeral : Numeral) :
    numberOf? numeral.text =
      some (.real (Word.ofBits .float64 ((numeral.decimal false).toWord .double))) := by
  have hdecimal : ∀ c ∈ numeral.text, IsDecimal c := fun c hc ↦ isDecimal_of_mem_numeral hc
  rw [numberOf?_of_isDecimal hdecimal, decimalOf?, dropUnderscores?_of_isDecimal hdecimal]
  simp only [Option.bind_eq_bind, Option.bind_some, unsignedOfText?_numeral, Option.pure_def]
  rw [if_neg]
  -- A point or the letter of an exponent is no digit.
  rintro ⟨-, hdigits⟩
  rw [List.all_eq_true] at hdigits
  rcases numeral.marked with hfraction | hexponent
  · exact absurd (hdigits '.' (by simp [Numeral.text, hfraction])) (by decide)
  · obtain ⟨exponent, hexponent⟩ := Option.isSome_iff_exists.mp hexponent
    exact absurd (hdigits 'e' (by simp [Numeral.text, hexponent, exponentText])) (by decide)

/-- The characters of a numeral go on with each other. -/
theorem isChain_numeral (numeral : Numeral) :
    numeral.text.IsChain fun b c ↦ goesOn b c = true := by
  have hplain : ∀ c ∈ numeral.whole ++ (if numeral.fraction.isEmpty then [] else
      '.' :: numeral.fraction), ∀ b, goesOn b c = true := by
    intro c hc b
    rcases List.mem_append.mp hc with hc | hc
    · exact goesOn_of_isDigit b (numeral.isDigit_whole c hc)
    · split_ifs at hc
      · cases hc
      · rcases List.mem_cons.mp hc with rfl | hc
        · simp [goesOn]
        · exact goesOn_of_isDigit b (numeral.isDigit_fraction c hc)
  have hexponent : ((numeral.exponent.map exponentText).getD []).IsChain
      fun b c ↦ goesOn b c = true := by
    cases numeral.exponent with
    | none => exact List.isChain_nil
    | some exponent =>
      obtain ⟨digits, htext, -, hdigits, -⟩ := Document.exists_exponent_digits exponent
      rw [Option.map_some, Option.getD_some, htext]
      refine List.isChain_cons_cons.mpr ⟨?_, isChain_of_forall _ fun c hc b ↦
        goesOn_of_isDigit b (hdigits c hc)⟩
      split_ifs <;> decide
  rw [Numeral.text, ← List.append_assoc, List.isChain_append]
  refine ⟨(isChain_of_forall '0' hplain).tail, hexponent, fun b _ c hc ↦ ?_⟩
  cases hnumeral : numeral.exponent with
  | none => simp [hnumeral] at hc
  | some exponent =>
    obtain rfl : 'e' = c := by simpa [hnumeral, exponentText] using hc
    rfl

/-- A natural is read from its digits, up to a mark. Assumes: it has not too many. -/
theorem readNumber?_decimalDigits {value : Nat}
    (hshort : (decimalDigits value).length ≤ integerDigitLimit) {rest : List Char}
    (hrest : Closes rest) :
    readNumber? (decimalDigits value ++ rest) = some (.int value, rest) := by
  have hrun := isChain_of_forall '0' fun c (hc : c ∈ decimalDigits value) b ↦
    goesOn_of_isDigit b (isDigit_of_mem_decimalDigits hc)
  rw [readNumber?_append (decimalDigits_ne_nil value) hrun.tail hrest,
    numberOf?_decimalDigits hshort]
  rfl

/-- The word nearest to a numeral is read from the numeral, up to a mark. -/
theorem readNumber?_numeral (numeral : Numeral) {rest : List Char} (hrest : Closes rest) :
    readNumber? (numeral.text ++ rest) =
      some (.real (Word.ofBits .float64 ((numeral.decimal false).toWord .double)), rest) := by
  obtain ⟨c, text, htext, -⟩ := numeral.exists_text_eq_cons
  rw [readNumber?_append (htext ▸ List.cons_ne_nil c text) (isChain_numeral numeral) hrest,
    numberOf?_numeral]
  rfl

end Decimals

end Handover.Literal
