import Handover.Proofs.Document.Texts
import Handover.Proofs.Text.Lines

/-!
# Texts in literals

A text stands between two quotes of one kind, or between two runs of three (`readQuoted?`). A
backslash begins an escape, unless the text is raw, and a text between single quotes stands on one
line. Escapes by the name of a character are not read, and neither are surrogates, which are no
characters. Every text is read back from its quoted form, whatever follows that does not begin with
a quote (`readQuoted?_quote`).
-/

set_option autoImplicit false
set_option relaxedAutoImplicit false

namespace Handover.Literal

/-! ### The grammar of quoted texts -/

section Grammar

/-- Whether a character is a quote. -/
def isQuote (c : Char) : Bool := c == '\x27' || c == '\x22'

/-- The character of a code point, if it is one. -/
def characterOf? (code : Nat) : Option Char :=
  if code.isValidChar then some (Char.ofNat code) else none

/-- The natural written by a number of hexadecimal digits after others, with what follows them. -/
def hexNumber? : Nat → Nat → List Char → Option (Nat × List Char)
  | 0, value, rest => some (value, rest)
  | _ + 1, _, [] => none
  | width + 1, value, c :: rest => do
    let digit ← Document.hexValue? c
    hexNumber? width (value * 16 + digit) rest

/-- Whether a character is a digit of base eight. -/
def isOctal (c : Char) : Bool := '0' ≤ c && c ≤ '7'

/-- The character whose code point is written in a number of hexadecimal digits, with what follows
them. -/
def hexEscape? (width : Nat) (text : List Char) : Option (List Char × List Char) := do
  let (code, rest) ← hexNumber? width 0 text
  let c ← characterOf? code
  return ([c], rest)

/-- What is written by an escape after its backslash, with what follows it. A line end is left out,
and an unknown escape stands for itself. -/
def escape? : List Char → Option (List Char × List Char)
  | [] => none
  | c :: rest =>
    if c = '\n' then some ([], rest)
    else if c = '\\' ∨ isQuote c then some ([c], rest)
    else if c = 'a' then some (['\x07'], rest)
    else if c = 'b' then some (['\x08'], rest)
    else if c = 'f' then some (['\x0c'], rest)
    else if c = 'n' then some (['\n'], rest)
    else if c = 'r' then some (['\r'], rest)
    else if c = 't' then some (['\t'], rest)
    else if c = 'v' then some (['\x0b'], rest)
    else if c = 'x' then hexEscape? 2 rest
    else if c = 'u' then hexEscape? 4 rest
    else if c = 'U' then hexEscape? 8 rest
    else if c = 'N' then none
    else if isOctal c then
      let digits := ((c :: rest).take 3).takeWhile isOctal
      let code := digits.foldl (fun total digit ↦ 8 * total + (digit.toNat - 48)) 0
      some ([Char.ofNat code], (c :: rest).drop digits.length)
    else some (['\\', c], rest)

/-- The text up to its closing quotes, with what follows them. Each step reads a character at least,
so the length of what is left bounds their number. -/
def readBody? (raw : Bool) (quotes : List Char) : Nat → List Char → Option (List Char × List Char)
  | 0, _ => none
  | fuel + 1, text =>
    if quotes.isPrefixOf text then some ([], text.drop quotes.length)
    else
      match text with
      | [] => none
      | c :: rest => do
        let (written, rest) ←
          if c = '\\' then
            if raw then (rest.head?).map fun d ↦ (['\\', d], rest.tail) else escape? rest
          else if Text.isLineEnd c && quotes.length == 1 then none
          else some ([c], rest)
        let (taken, after) ← readBody? raw quotes fuel rest
        return (written ++ taken, after)

/-- The quoted text at the start of a text, with what follows it. -/
def readQuoted? (raw : Bool) : List Char → Option (List Char × List Char)
  | [] => none
  | quote :: rest =>
    if [quote, quote].isPrefixOf rest then
      readBody? raw [quote, quote, quote] (rest.length + 1) (rest.drop 2)
    else readBody? raw [quote] (rest.length + 1) rest

end Grammar

/-! ### Escapes -/

section Escapes

theorem characterOf?_toNat (c : Char) : characterOf? c.toNat = some c := by
  have hvalid : c.toNat.isValidChar := c.valid
  rw [characterOf?, if_pos hvalid, Char.ofNat_toNat]

/-- The last hexadecimal digits of a natural are read as what they write. -/
theorem hexNumber?_hexDigits (width more value code : Nat) (rest : List Char) :
    hexNumber? (width + more) value (Text.hexDigits width code ++ rest) =
      hexNumber? more (value * 16 ^ width + code % 16 ^ width) rest := by
  induction width generalizing more code rest with
  | zero => simp [Text.hexDigits, Nat.mod_one]
  | succ width ih =>
    rw [Text.hexDigits, List.append_assoc, Nat.add_right_comm, Nat.add_assoc, ih,
      List.singleton_append, hexNumber?, Document.hexValue?_hexDigit]
    simp only [Option.bind_eq_bind, Option.bind_some]
    have hcode : code % 16 ^ (width + 1) = 16 * (code / 16 % 16 ^ width) + code % 16 := by
      rw [Nat.pow_succ', Nat.mod_mul, Nat.add_comm]
    congr 1
    rw [hcode, Nat.pow_succ']
    ring

theorem hexEscape?_hexDigits (width : Nat) {c : Char} (hc : c.toNat < 16 ^ width)
    (rest : List Char) :
    hexEscape? width (Text.hexDigits width c.toNat ++ rest) = some ([c], rest) := by
  have hnumber := hexNumber?_hexDigits width 0 0 c.toNat rest
  rw [Nat.add_zero, Nat.zero_mul, Nat.zero_add, Nat.mod_eq_of_lt hc] at hnumber
  simp [hexEscape?, hnumber, hexNumber?, characterOf?_toNat]

/-- The escape of a code point is read as its character. -/
theorem escape?_escapeCode (c : Char) :
    ∃ text, Text.escapeCode c.toNat = '\\' :: text ∧
      ∀ rest, escape? (text ++ rest) = some ([c], rest) := by
  have hvalid := Document.not_surrogate c
  unfold Text.escapeCode
  split_ifs with hbyte hunit
  · exact ⟨_, rfl, fun rest ↦ hexEscape?_hexDigits 2 hbyte rest⟩
  · exact ⟨_, rfl, fun rest ↦ hexEscape?_hexDigits 4 hunit rest⟩
  · exact ⟨_, rfl, fun rest ↦ hexEscape?_hexDigits 8 (by omega) rest⟩

variable {quote : Char} (hquote : isQuote quote = true)

include hquote

/-- The reader takes one character from what is written for one. -/
theorem readBody?_escapeCharacter (c : Char) (fuel : Nat) (rest : List Char) :
    readBody? false [quote] (fuel + 1) (Text.escapeCharacter Text.isPrintable quote c ++ rest) =
      (readBody? false [quote] fuel rest).map fun found ↦ (c :: found.1, found.2) := by
  have hslash : quote ≠ '\\' := by
    rintro rfl
    exact absurd hquote (by decide)
  have hescape : ∀ text, escape? text = some ([c], rest) →
      readBody? false [quote] (fuel + 1) ('\\' :: text) =
        (readBody? false [quote] fuel rest).map fun found ↦ (c :: found.1, found.2) := by
    intro text htext
    have hopen : [quote].isPrefixOf ('\\' :: text) = false := by
      simp [List.isPrefixOf, hslash]
    rw [readBody?, hopen]
    simp only [Bool.false_eq_true, if_false, if_true, htext, Option.bind_eq_bind, Option.bind_some]
    cases readBody? false [quote] fuel rest <;> rfl
  unfold Text.escapeCharacter
  split_ifs with hspecial htab hline hreturn hshown
  · refine hescape _ ?_
    rcases hspecial with rfl | rfl
    · have hfeed : c ≠ '\n' := by
        rintro rfl
        exact absurd hquote (by decide)
      simp [escape?, hquote, hfeed]
    · rfl
  · subst htab
    exact hescape _ rfl
  · subst hline
    exact hescape _ rfl
  · subst hreturn
    exact hescape _ rfl
  · rw [not_or] at hspecial
    have hopen : [quote].isPrefixOf (c :: rest) = false := by
      simp [List.isPrefixOf, Ne.symm hspecial.1]
    have hend := Text.isLineEnd_eq_false (by decide) (by decide) hshown
    rw [List.singleton_append, readBody?, hopen]
    simp only [Bool.false_eq_true, if_false, hspecial.2, hend, Bool.false_and, Option.bind_eq_bind,
      Option.bind_some]
    cases readBody? false [quote] fuel rest <;> rfl
  · obtain ⟨text, htext, hread⟩ := escape?_escapeCode c
    rw [htext]
    exact hescape _ (hread rest)

/-- A text is read back from its escapes up to the closing quote. -/
theorem readBody?_escapes (characters : List Char) {fuel : Nat} (hfuel : characters.length < fuel)
    (rest : List Char) :
    readBody? false [quote] fuel
        (characters.flatMap (Text.escapeCharacter Text.isPrintable quote) ++ quote :: rest) =
      some (characters, rest) := by
  induction characters generalizing fuel with
  | nil =>
    obtain ⟨fuel, rfl⟩ := Nat.exists_eq_succ_of_ne_zero hfuel.ne'
    simp [readBody?, List.isPrefixOf]
  | cons c characters ih =>
    obtain ⟨fuel, rfl⟩ := Nat.exists_eq_succ_of_ne_zero (Nat.ne_of_gt (Nat.zero_lt_of_lt hfuel))
    rw [List.flatMap_cons, List.append_assoc, readBody?_escapeCharacter hquote,
      ih (Nat.lt_of_succ_lt_succ hfuel)]
    rfl

end Escapes

/-! ### Quoted forms -/

section Quoted

theorem isQuote_quoteFor (characters : List Char) : isQuote (Text.quoteFor characters) = true := by
  unfold Text.quoteFor
  split_ifs <;> rfl

theorem escapeCharacter_ne_nil (shown : Char → Bool) (quote c : Char) :
    Text.escapeCharacter shown quote c ≠ [] := by
  unfold Text.escapeCharacter Text.escapeCode
  split_ifs <;> simp

/-- No escape begins with the quote. -/
theorem head?_escapeCharacter {quote : Char} (hquote : isQuote quote = true) (c : Char) :
    (Text.escapeCharacter Text.isPrintable quote c).head? ≠ some quote := by
  have hslash : '\\' ≠ quote := by
    rintro rfl
    exact absurd hquote (by decide)
  unfold Text.escapeCharacter Text.escapeCode
  split_ifs with hspecial <;> simp_all

theorem length_le_length_escapes (quote : Char) (characters : List Char) :
    characters.length ≤
      (characters.flatMap (Text.escapeCharacter Text.isPrintable quote)).length := by
  have hlengths : ∀ length ∈ characters.map fun c ↦
      (Text.escapeCharacter Text.isPrintable quote c).length, 1 ≤ length := by
    intro length hlength
    obtain ⟨c, -, rfl⟩ := List.mem_map.mp hlength
    exact List.length_pos_of_ne_nil (escapeCharacter_ne_nil _ quote c)
  rw [List.length_flatMap]
  exact (List.length_map _).ge.trans (List.length_le_sum_of_one_le _ hlengths)

/-- A text is read back from its quoted form. -/
theorem readQuoted?_quote (text : String) {rest : List Char}
    (hrest : ∀ c ∈ rest.head?, isQuote c = false) :
    readQuoted? false ((Text.quote text).toList ++ rest) = some (text.toList, rest) := by
  have hquote := isQuote_quoteFor text.toList
  rw [Text.quote, Text.quoteWith, String.toList_ofList]
  generalize Text.quoteFor text.toList = quote at hquote
  have hlength := length_le_length_escapes quote text.toList
  -- What follows the opening quote does not begin with two more.
  have hopen : [quote, quote].isPrefixOf
      (text.toList.flatMap (Text.escapeCharacter Text.isPrintable quote) ++ quote :: rest) =
        false := by
    rw [Bool.eq_false_iff, ne_eq, List.isPrefixOf_iff_prefix]
    rintro ⟨more, hmore⟩
    have hhead := congrArg List.head? hmore
    cases htext : text.toList with
    | nil =>
      rw [htext] at hmore
      have hnext : rest = quote :: more := by simpa using hmore.symm
      rw [hnext] at hrest
      exact Bool.false_ne_true ((hrest quote rfl).symm.trans hquote)
    | cons c characters =>
      rw [htext, List.flatMap_cons, List.append_assoc,
        List.head?_append_of_ne_nil _ (escapeCharacter_ne_nil _ quote c)] at hhead
      exact head?_escapeCharacter hquote c hhead.symm
  simp only [List.cons_append, List.append_assoc, List.nil_append]
  rw [readQuoted?, hopen]
  exact readBody?_escapes hquote _ (by simp only [List.length_append, List.length_cons]; omega) rest

end Quoted

end Handover.Literal
