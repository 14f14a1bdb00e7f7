import Handover.Element.Arithmetic
import Handover.Proofs.Literal.Numbers
import Handover.Proofs.Literal.Texts

/-!
# The grammar of literals

A literal on one line is made of numbers with or without a sign, texts side by side, the names
`None`, `True` and `False`, and tuples, lists and records of literals, with blanks between them and
a comma after the last item if one likes (`read`). An expression may use more names, which stand for
what its surroundings say (`evaluate`).

Numbers and texts begin in a way that tells the reader what they are (`Begins`). Up to a mark, an
integer is read from its digits (`readSimple?_integerNumeral`), a text from its quoted form
(`readValue?_quote`), and a name as what it stands for (`readUnsigned?_name`,
`readValue?_constant`).
-/

set_option autoImplicit false
set_option relaxedAutoImplicit false

namespace Handover.Literal

/-! ### The grammar of values -/

section Grammar

/-- Whether a character is a blank within a line. -/
def isSpace (c : Char) : Bool := c == ' ' || c == '\t' || c == '\x0c'

/-- The text without the blanks at its start. -/
def skipSpaces (text : List Char) : List Char := text.dropWhile isSpace

/-- The quoted text after a letter that says how to read it, and whether it is raw. -/
def openText? : List Char → Option (Bool × List Char)
  | [] => none
  | c :: rest =>
    if isQuote c then some (false, c :: rest)
    else if rest.head?.any isQuote then
      if c = 'r' ∨ c = 'R' then some (true, rest)
      else if c = 'u' ∨ c = 'U' then some (false, rest)
      else none
    else none

/-- The texts side by side at the start of a text, put together, with what follows them. Each step
reads a character at least, so the length of what is left bounds their number. -/
def readTexts? : Nat → List Char → Option (List Char × List Char)
  | 0, _ => none
  | fuel + 1, text => do
    let (raw, quoted) ← openText? text
    let (content, rest) ← readQuoted? raw quoted
    if (openText? (skipSpaces rest)).isSome then
      let (more, after) ← readTexts? fuel (skipSpaces rest)
      return (content ++ more, after)
    else return (content, rest)

/-- The names that stand for a value everywhere. -/
def constant? (name : String) : Option Attr :=
  if name = "None" then some .null
  else if name = "True" then some (.bool true)
  else if name = "False" then some (.bool false)
  else none

/-- A number after a sign. -/
def signed? (negative : Bool) : Attr → Option Attr
  | .int value => some (.int (if negative then -value else value))
  | .real value => some (.real (if negative then Word.negate value else value))
  | _ => none

variable (names : String → Option Attr)

/-- The name or unsigned number at the start of a text, with what follows it. -/
def readUnsigned? (text : List Char) : Option (Attr × List Char) :=
  if text.head?.any Text.isIdentifierStart then
    let name := String.ofList (text.takeWhile Text.isIdentifierContinue)
    ((constant? name).or (names name)).map fun value ↦
      (value, text.dropWhile Text.isIdentifierContinue)
  else readNumber? text

/-- The name or number at the start of a text, with what follows it. -/
def readSimple? : List Char → Option (Attr × List Char)
  | [] => none
  | c :: rest =>
    if c = '+' ∨ c = '-' then do
      let (value, after) ← readUnsigned? names (skipSpaces rest)
      let value ← signed? (c == '-') value
      return (value, after)
    else readUnsigned? names (c :: rest)

mutual

/-- The value at the start of a text, with what follows it. -/
def readValue? : Nat → List Char → Option (Attr × List Char)
  | 0, _ => none
  | fuel + 1, text =>
    match text with
    | '(' :: rest =>
      match skipSpaces rest with
      | ')' :: after => some (.tuple [], after)
      | rest => do
        let (first, rest) ← readValue? fuel rest
        match skipSpaces rest with
        | ')' :: after => return (first, after)
        | ',' :: rest =>
          let (items, after) ← readItems? ')' fuel (skipSpaces rest)
          return (.tuple (first :: items), after)
        | _ => none
    | '[' :: rest => do
      let (items, after) ← readItems? ']' fuel (skipSpaces rest)
      return (.list items, after)
    | '\x7b' :: rest => do
      let (fields, after) ← readFields? fuel (skipSpaces rest)
      return (.record (OrderedMap.ofList fields).entries, after)
    | text =>
      if (openText? text).isSome then do
        let (content, after) ← readTexts? (text.length + 1) text
        return (.text (String.ofList content), after)
      else readSimple? names text

/-- The items up to the closing bracket, with what follows it. -/
def readItems? (closing : Char) : Nat → List Char → Option (List Attr × List Char)
  | 0, _ => none
  | fuel + 1, text =>
    if text.head? = some closing then some ([], text.tail)
    else do
      let (item, rest) ← readValue? fuel text
      match skipSpaces rest with
      | ',' :: rest =>
        let (items, after) ← readItems? closing fuel (skipSpaces rest)
        return (item :: items, after)
      | c :: after => if c = closing then return ([item], after) else none
      | [] => none

/-- The fields up to the closing brace, with what follows it. -/
def readFields? : Nat → List Char → Option (List (String × Attr) × List Char)
  | 0, _ => none
  | fuel + 1, text =>
    if text.head? = some '\x7d' then some ([], text.tail)
    else do
      let (key, rest) ← readTexts? (text.length + 1) text
      match skipSpaces rest with
      | ':' :: rest =>
        let (value, rest) ← readValue? fuel (skipSpaces rest)
        match skipSpaces rest with
        | ',' :: rest =>
          let (fields, after) ← readFields? fuel (skipSpaces rest)
          return ((String.ofList key, value) :: fields, after)
        | '\x7d' :: after => return ([(String.ofList key, value)], after)
        | _ => none
      | _ => none

end

/-- The value that an expression writes, with nothing but blanks around it. Every step of the reader
consumes a character or opens a value that does, so twice the length bounds their number. -/
def evaluate (expression : String) : Option Attr := do
  let text := skipSpaces expression.toList
  let (value, rest) ← readValue? names (2 * text.length + 1) text
  if (skipSpaces rest).isEmpty then return value else none

/-- The value of a literal, in which no name is used but those that stand for a value everywhere. -/
def read (literal : String) : Option Attr := evaluate (fun _ ↦ none) literal

end Grammar

variable {names : String → Option Attr} {rest : List Char}

/-! ### Names and numbers -/

section Simple

theorem skipSpaces_of_not_space {c : Char} (hc : isSpace c = false) (rest : List Char) :
    skipSpaces (c :: rest) = c :: rest := by
  rw [skipSpaces, List.dropWhile_cons_of_neg (by simp [hc])]

/-- No blank closes or separates values. -/
theorem skipSpaces_of_closes (hrest : Closes rest) : skipSpaces rest = rest := by
  cases rest with
  | nil => rfl
  | cons c rest => exact skipSpaces_of_not_space (hrest.eq_false rfl c rfl) rest

/-- A name is told apart from what follows it. -/
theorem readUnsigned?_name {name : String} (hstart : name.toList.head?.any Text.isIdentifierStart)
    (hname : name.toList.all Text.isIdentifierContinue = true) (hrest : Closes rest) :
    readUnsigned? names (name.toList ++ rest) =
      ((constant? name).or (names name)).map fun value ↦ (value, rest) := by
  have htake := takeWhile_and_dropWhile_append (List.all_eq_true.mp hname) (hrest.eq_false rfl)
  have hhead : (name.toList ++ rest).head?.any Text.isIdentifierStart = true := by
    cases hcharacters : name.toList with
    | nil => simp [hcharacters] at hstart
    | cons c more => simpa [hcharacters] using hstart
  rw [readUnsigned?, if_pos hhead, htake.1, htake.2, String.ofList_toList]

/-- A digit begins no name. -/
theorem readUnsigned?_of_isDigit {c : Char} (hc : c.isDigit = true) (text : List Char) :
    readUnsigned? names (c :: text) = readNumber? (c :: text) := by
  have hcode : 48 ≤ c.toNat ∧ c.toNat ≤ 57 := by
    simpa [Char.isDigit, UInt32.le_iff_toNat_le] using hc
  have hstart : Text.isIdentifierStart c = false := by
    rw [← Char.ofNat_toNat c]
    generalize c.toNat = code at hcode
    obtain ⟨hlow, hhigh⟩ := hcode
    interval_cases code <;> rfl
  rw [readUnsigned?, if_neg (by simp [hstart])]

theorem readSimple?_unsigned {c : Char} (hc : c ∉ ['+', '-']) (text : List Char) :
    readSimple? names (c :: text) = readUnsigned? names (c :: text) := by
  rw [readSimple?, if_neg (by simpa using hc)]

theorem readSimple?_minus {c : Char} (hc : isSpace c = false) (text : List Char) :
    readSimple? names ('-' :: c :: text) = (readUnsigned? names (c :: text)).bind fun found ↦
      (signed? true found.1).map fun value ↦ (value, found.2) := by
  rw [readSimple?, if_pos (.inr rfl), skipSpaces_of_not_space hc]
  cases readUnsigned? names (c :: text) with
  | none => rfl
  | some found => cases hsigned : signed? true found.1 <;> simp [hsigned]

/-- A digit is none of some characters that are no digits. -/
theorem not_mem_of_isDigit {c : Char} (hc : c.isDigit = true) {marks : List Char}
    (hmarks : marks.any Char.isDigit = false) : c ∉ marks :=
  fun hmem ↦ List.any_eq_false.mp hmarks c hmem hc

/-- A number that begins with a digit is read with the minus before it, if there is one. -/
theorem readSimple?_number {c : Char} (hc : c.isDigit = true) {text : List Char} {value : Attr}
    (hread : readNumber? (c :: text) = some (value, rest)) (negative : Bool) :
    readSimple? names (if negative then '-' :: c :: text else c :: text) =
      (if negative then signed? true value else some value).map fun value ↦ (value, rest) := by
  cases negative with
  | true =>
    have hspace : isSpace c = false := by
      have hne : c ∉ [' ', '\t', '\x0c'] := not_mem_of_isDigit hc rfl
      simpa [isSpace, and_assoc] using hne
    simp only [if_true]
    rw [readSimple?_minus hspace, readUnsigned?_of_isDigit hc, hread, Option.bind_some]
  | false =>
    simp only [Bool.false_eq_true, if_false]
    rw [readSimple?_unsigned (not_mem_of_isDigit hc rfl), readUnsigned?_of_isDigit hc, hread]
    rfl

theorem readSimple?_integerNumeral {value : Int} (hshort : isShortInteger value = true)
    (hrest : Closes rest) :
    readSimple? names (integerNumeral value ++ rest) = some (.int value, rest) := by
  obtain ⟨c, digits, hdigits⟩ := List.exists_cons_of_ne_nil (decimalDigits_ne_nil value.natAbs)
  have hmem : c ∈ decimalDigits value.natAbs := hdigits ▸ List.mem_cons_self ..
  have hc : c.isDigit = true := isDigit_of_mem_decimalDigits hmem
  have hread := readNumber?_decimalDigits (of_decide_eq_true hshort) hrest
  rw [hdigits, List.cons_append] at hread
  have htext : integerNumeral value ++ rest = if decide (value < 0) then
      '-' :: c :: (digits ++ rest) else c :: (digits ++ rest) := by
    simp only [integerNumeral, hdigits, decide_eq_true_eq]
    split_ifs <;> rfl
  rw [htext, readSimple?_number hc hread]
  by_cases hnegative : value < 0
  · simp only [hnegative, decide_true, if_true, signed?, Option.map_some]
    congr 3
    omega
  · simp only [hnegative, decide_false, Bool.false_eq_true, if_false, Option.map_some]
    congr 3
    omega

end Simple

/-! ### What begins a value -/

section Beginnings

/-- A text that begins as what is written for a value may: with no blank and with nothing that
closes a collection. -/
def Begins (text : List Char) : Prop :=
  ∃ c more, text = c :: more ∧ c ∉ [' ', '\t', '\x0c', ')', ']', '\x7d']

theorem Begins.append {text : List Char} (htext : Begins text) (rest : List Char) :
    Begins (text ++ rest) := by
  obtain ⟨c, more, rfl, hc⟩ := htext
  exact ⟨c, more ++ rest, rfl, hc⟩

theorem Begins.skipSpaces {text : List Char} (htext : Begins text) :
    Literal.skipSpaces text = text := by
  obtain ⟨c, more, rfl, hc⟩ := htext
  simp only [List.mem_cons, not_or] at hc
  exact skipSpaces_of_not_space (by simp [isSpace, hc]) more

theorem Begins.head?_ne {text : List Char} (htext : Begins text) {c : Char}
    (hc : c ∈ [')', ']', '\x7d']) : text.head? ≠ some c := by
  obtain ⟨d, more, rfl, hd⟩ := htext
  rintro ⟨⟩
  exact hd (List.mem_append_right [' ', '\t', '\x0c'] hc)

/-- A text that begins as what is written for a value without parts that is no text. -/
def BeginsSimple (text : List Char) : Prop :=
  ∃ c more, text = c :: more ∧ (c.isDigit = true ∨ c ∈ ['-', 'N', 'T', 'F', 'i', 'n'])

theorem not_mem_of_simple {c : Char}
    (hc : c.isDigit = true ∨ c ∈ ['-', 'N', 'T', 'F', 'i', 'n']) {marks : List Char}
    (hmarks : marks.any Char.isDigit = false)
    (hothers : ['-', 'N', 'T', 'F', 'i', 'n'].any marks.contains = false) : c ∉ marks := by
  rcases hc with hc | hc
  · exact not_mem_of_isDigit hc hmarks
  · simpa using List.any_eq_false.mp hothers c hc

theorem BeginsSimple.begins {text : List Char} (htext : BeginsSimple text) : Begins text := by
  obtain ⟨c, more, rfl, hc⟩ := htext
  exact ⟨c, more, rfl, not_mem_of_simple hc rfl rfl⟩

theorem openText?_eq_none {c : Char} (hc : c ∉ ['\x27', '\x22', 'r', 'R', 'u', 'U'])
    (text : List Char) : openText? (c :: text) = none := by
  simp only [List.mem_cons, not_or] at hc
  simp [openText?, isQuote, hc]

/-- Such a text is read as a name or a number. -/
theorem readValue?_of_beginsSimple {text : List Char} (htext : BeginsSimple text) (fuel : Nat) :
    readValue? names (fuel + 1) text = readSimple? names text := by
  obtain ⟨c, more, rfl, hc⟩ := htext
  have hopen : c ∉ ['(', '[', '\x7b'] := not_mem_of_simple hc rfl rfl
  have htext := openText?_eq_none (not_mem_of_simple hc rfl rfl) more
  rw [readValue?, if_neg (by simp [htext])]
  all_goals
    rintro rest ⟨⟩
    simp at hopen

theorem BeginsSimple.append {text : List Char} (htext : BeginsSimple text) (rest : List Char) :
    BeginsSimple (text ++ rest) := by
  obtain ⟨c, more, rfl, hc⟩ := htext
  exact ⟨c, more ++ rest, rfl, hc⟩

theorem beginsSimple_integerNumeral (value : Int) : BeginsSimple (integerNumeral value) := by
  obtain ⟨c, digits, hdigits⟩ := List.exists_cons_of_ne_nil (decimalDigits_ne_nil value.natAbs)
  have hmem : c ∈ decimalDigits value.natAbs := hdigits ▸ List.mem_cons_self ..
  have hc : c.isDigit = true := isDigit_of_mem_decimalDigits hmem
  unfold integerNumeral
  split_ifs
  · exact ⟨'-', _, rfl, .inr (by decide)⟩
  · exact ⟨c, digits, hdigits, .inl hc⟩

theorem beginsSimple_real (word : Word .float64) :
    BeginsSimple (Attr.real word).literalCharacters := by
  rw [Attr.literalCharacters]
  cases hnumber : word.toNumber with
  | nan => exact ⟨'n', _, rfl, .inr (by decide)⟩
  | infinite negative =>
    cases negative with
    | false => exact ⟨'i', _, rfl, .inr (by decide)⟩
    | true => exact ⟨'-', _, rfl, .inr (by decide)⟩
  | finite negative mantissa exponent =>
    obtain ⟨hholds, -⟩ := BinaryFormat.decode_eq_finite word.isLt hnumber
    obtain ⟨written, hmagnitude, -⟩ := exists_numeral_of_holds hholds
    obtain ⟨c, text, htext, hc⟩ := written.exists_text_eq_cons
    rw [shortestNumeral, String.toList_ofList, hmagnitude, htext]
    cases negative with
    | false => exact ⟨c, _, rfl, .inl hc⟩
    | true => exact ⟨'-', _, rfl, .inr (by decide)⟩

theorem exists_quote_eq_cons (text : String) :
    ∃ more, (Text.quote text).toList = Text.quoteFor text.toList :: more := by
  rw [Text.quote, Text.quoteWith, String.toList_ofList]
  exact ⟨_, rfl⟩

theorem begins_quote (text : String) : Begins (Text.quote text).toList := by
  obtain ⟨more, hmore⟩ := exists_quote_eq_cons text
  refine ⟨_, more, hmore, ?_⟩
  unfold Text.quoteFor
  split_ifs <;> decide

end Beginnings

/-! ### Texts and names -/

section Leaves

theorem openText?_quote (text : String) (rest : List Char) :
    openText? ((Text.quote text).toList ++ rest) =
      some (false, (Text.quote text).toList ++ rest) := by
  obtain ⟨more, hmore⟩ := exists_quote_eq_cons text
  rw [hmore, List.cons_append, openText?, if_pos (isQuote_quoteFor _)]

/-- A text is read up to a mark. -/
theorem readTexts?_quote (text : String) (fuel : Nat) (hrest : Closes rest) :
    readTexts? (fuel + 1) ((Text.quote text).toList ++ rest) = some (text.toList, rest) := by
  have hstop : openText? rest = none := by
    cases rest with
    | nil => rfl
    | cons c tail =>
      have hc : ['\x27', '\x22', 'r', 'R', 'u', 'U'].contains c = false := hrest.eq_false rfl c rfl
      exact openText?_eq_none (by simpa using hc) tail
  simp [readTexts?, openText?_quote, readQuoted?_quote text (hrest.eq_false rfl),
    skipSpaces_of_closes hrest, hstop]

theorem readValue?_quote (text : String) (fuel : Nat) (hrest : Closes rest) :
    readValue? names (fuel + 1) ((Text.quote text).toList ++ rest) = some (.text text, rest) := by
  have hread := readTexts?_quote text ((Text.quote text).toList ++ rest).length hrest
  have hopen := openText?_quote text rest
  have hquote := isQuote_quoteFor text.toList
  obtain ⟨more, hmore⟩ := exists_quote_eq_cons text
  rw [hmore, List.cons_append] at hread hopen ⊢
  rw [readValue?, if_pos (by simp [hopen]), hread]
  · simp
  all_goals
    intro tail heq
    rw [(List.cons.inj heq).1] at hquote
    exact absurd hquote (by decide)

/-- A name that stands for a value everywhere is read as that. -/
theorem readValue?_constant {name : String} {value : Attr} (hvalue : constant? name = some value)
    (fuel : Nat) (hrest : Closes rest) :
    readValue? names (fuel + 1) (name.toList ++ rest) = some (value, rest) := by
  have hname : BeginsSimple name.toList ∧ name.toList.head?.any Text.isIdentifierStart = true ∧
      name.toList.all Text.isIdentifierContinue = true ∧
      name.toList.head? ∉ [some '+', some '-'] := by
    unfold constant? at hvalue
    split_ifs at hvalue with hnone htrue hfalse
    · rw [hnone]
      exact ⟨⟨'N', _, rfl, .inr (by decide)⟩, rfl, rfl, by decide⟩
    · rw [htrue]
      exact ⟨⟨'T', _, rfl, .inr (by decide)⟩, rfl, rfl, by decide⟩
    · rw [hfalse]
      exact ⟨⟨'F', _, rfl, .inr (by decide)⟩, rfl, rfl, by decide⟩
  obtain ⟨hbegins, hstart, hall, hsign⟩ := hname
  have hread : readUnsigned? names (name.toList ++ rest) = _ :=
    readUnsigned?_name hstart hall hrest
  rw [readValue?_of_beginsSimple (hbegins.append rest)]
  obtain ⟨c, more, hcharacters, -⟩ := hbegins
  rw [hcharacters] at hread hsign ⊢
  rw [List.cons_append] at hread ⊢
  rw [readSimple?_unsigned (by simpa using hsign), hread, hvalue]
  rfl

end Leaves

end Handover.Literal
