import Handover.Program.Slot
import Handover.Text.Identifier
import Handover.Proofs.Number.Decimal

/-!
# Texts on one line

A line feed or a carriage return ends a line, and a text without them stands on one line
(`Text.OneLine`). Quoted texts do, whatever they quote (`oneLine_quote`), and so do identifiers and
every literal of an attribute value (`Attr.oneLine_literal`). A value that is shown as it is stands
on one line unless it is itself a text of several (`Attr.oneLine_display`). Lines that are written
one after the other are found again by splitting exactly if each of them is one
(`splitOnP_writeLines_iff`).
-/

set_option autoImplicit false
set_option relaxedAutoImplicit false

namespace Handover

namespace Text

/-- Whether a character ends a line. -/
def isLineEnd (c : Char) : Bool := c == '\n' || c == '\r'

/-- No character of a text ends a line. -/
def OneLine (text : List Char) : Prop := ∀ c ∈ text, isLineEnd c = false

-- The search through the text is named, since a search through all characters decides this too.
instance (text : List Char) : Decidable (OneLine text) := List.decidableBAll _ text

/-! ### Composition -/

section Composition

variable {text other : List Char}

@[simp] theorem oneLine_nil : OneLine [] := fun _ hc ↦ absurd hc List.not_mem_nil

@[simp] theorem oneLine_cons {c : Char} :
    OneLine (c :: text) ↔ isLineEnd c = false ∧ OneLine text :=
  List.forall_mem_cons

@[simp] theorem oneLine_append : OneLine (text ++ other) ↔ OneLine text ∧ OneLine other :=
  List.forall_mem_append

theorem OneLine.of_subset (hother : OneLine other) (hsubset : text ⊆ other) : OneLine text :=
  fun c hc ↦ hother c (hsubset hc)

theorem oneLine_flatMap {α : Type} {items : List α} {write : α → List Char} :
    OneLine (items.flatMap write) ↔ ∀ item ∈ items, OneLine (write item) :=
  List.forall_mem_flatMap

@[simp] theorem oneLine_replicate_zero (count : Nat) : OneLine (List.replicate count '0') := by
  intro c hc
  rw [List.eq_of_mem_replicate hc]
  rfl

/-- Texts with commas between them are on one line when each of them is. -/
theorem oneLine_intercalate {texts : List String} (htexts : ∀ text ∈ texts, OneLine text.toList) :
    OneLine ([',', ' '].intercalate (texts.map String.toList)) := by
  induction texts with
  | nil => exact oneLine_nil
  | cons first rest ih =>
    obtain ⟨hfirst, hrest⟩ := List.forall_mem_cons.mp htexts
    cases rest with
    | nil => rwa [List.map_singleton, List.intercalate_singleton]
    | cons second rest =>
      rw [List.map_cons, List.map_cons, List.intercalate_cons_cons, oneLine_append, oneLine_append]
      exact ⟨⟨hfirst, by decide⟩, ih hrest⟩

end Composition

/-! ### Splitting -/

section Splitting

/-- The parts of a split text hold no character at which it is split. -/
theorem oneLine_of_mem_splitOnP {text part : List Char} (hpart : part ∈ text.splitOnP isLineEnd) :
    OneLine part := by
  induction text generalizing part with
  | nil =>
    rw [List.splitOnP_nil, List.mem_singleton] at hpart
    rw [hpart]
    exact oneLine_nil
  | cons c rest ih =>
    rw [List.splitOnP_cons_eq_if_modifyHead] at hpart
    split_ifs at hpart with hend
    · rcases List.mem_cons.mp hpart with rfl | hpart
      · exact oneLine_nil
      · exact ih hpart
    · generalize rest.splitOnP isLineEnd = parts at hpart ih
      cases parts with
      | nil => cases hpart
      | cons first others =>
        rcases List.mem_cons.mp hpart with rfl | hpart
        · exact oneLine_cons.mpr
            ⟨Bool.eq_false_iff.mpr hend, ih (List.mem_cons_self ..)⟩
        · exact ih (List.mem_cons_of_mem _ hpart)

/-- Texts one after the other, each with a line feed after it. -/
def writeLines (lines : List (List Char)) : List Char := lines.flatMap fun line ↦ line ++ ['\n']

/-- Texts that are written one after the other are the lines of what is written exactly if each of
them is on one line. -/
theorem splitOnP_writeLines_iff (lines : List (List Char)) :
    (writeLines lines).splitOnP isLineEnd = lines ++ [[]] ↔ ∀ line ∈ lines, OneLine line := by
  constructor
  · intro hsplit line hline
    exact oneLine_of_mem_splitOnP (hsplit ▸ List.mem_append_left _ hline)
  · intro hlines
    induction lines with
    | nil => exact List.splitOnP_nil
    | cons line rest ih =>
      obtain ⟨hline, hrest⟩ := List.forall_mem_cons.mp hlines
      rw [writeLines, List.flatMap_cons, List.append_assoc, List.singleton_append,
        List.splitOnP_append_cons_of_forall_mem hline _ rfl, ← writeLines, ih hrest,
        List.cons_append]

/-- Lines with line feeds between them and one at the end. -/
theorem toList_intercalate_lines {lines : List String} (hsome : lines ≠ []) :
    ("\n".intercalate lines ++ "\n").toList = writeLines (lines.map String.toList) := by
  induction lines with
  | nil => exact absurd rfl hsome
  | cons first rest ih =>
    cases rest with
    | nil => simp [writeLines]
    | cons second rest =>
      rw [String.intercalate_cons_cons, String.append_assoc, String.toList_append,
        ih (List.cons_ne_nil _ _), String.toList_append]
      simp [writeLines]

end Splitting

/-! ### Quoted texts and identifiers -/

section Quoted

/-- No line ends at a character of a class that neither line end is in. -/
theorem isLineEnd_eq_false {holds : Char → Bool} (hfeed : holds '\n' = false)
    (hreturn : holds '\r' = false) {c : Char} (hc : holds c = true) : isLineEnd c = false := by
  rw [Bool.eq_false_iff]
  intro hend
  rw [isLineEnd, Bool.or_eq_true, beq_iff_eq, beq_iff_eq] at hend
  rcases hend with rfl | rfl
  · exact Bool.false_ne_true (hfeed.symm.trans hc)
  · exact Bool.false_ne_true (hreturn.symm.trans hc)

theorem isLineEnd_hexDigit (value : Nat) : isLineEnd (hexDigit value) = false := by
  have hbound : value % 16 < 16 := Nat.mod_lt _ (by decide)
  unfold hexDigit
  interval_cases value % 16 <;> decide

theorem oneLine_hexDigits (width value : Nat) : OneLine (hexDigits width value) := by
  induction width generalizing value with
  | zero => exact oneLine_nil
  | succ width ih =>
    rw [hexDigits, oneLine_append]
    exact ⟨ih _, oneLine_cons.mpr ⟨isLineEnd_hexDigit _, oneLine_nil⟩⟩

theorem oneLine_escapeCode (code : Nat) : OneLine (escapeCode code) := by
  unfold escapeCode
  split_ifs <;> simp [isLineEnd, oneLine_hexDigits]

theorem oneLine_escapeCharacter {mark : Char} (hmark : isLineEnd mark = false) (c : Char) :
    OneLine (escapeCharacter isPrintable mark c) := by
  unfold escapeCharacter
  split_ifs with hspecial _ _ _ hshown
  · rcases hspecial with rfl | rfl
    · exact oneLine_cons.mpr ⟨rfl, oneLine_cons.mpr ⟨hmark, oneLine_nil⟩⟩
    · decide
  · decide
  · decide
  · decide
  · exact oneLine_cons.mpr ⟨isLineEnd_eq_false (by decide) (by decide) hshown, oneLine_nil⟩
  · exact oneLine_escapeCode _

/-- A quoted text is on one line, whatever it quotes. -/
theorem oneLine_quote (text : String) : OneLine (quote text).toList := by
  have hmark : isLineEnd (quoteFor text.toList) = false := by
    unfold quoteFor
    split_ifs <;> rfl
  rw [quote, quoteWith, String.toList_ofList]
  simp [hmark, oneLine_flatMap, oneLine_escapeCharacter hmark]

theorem oneLine_of_isUsableIdentifier {text : String} (husable : isUsableIdentifier text = true) :
    OneLine text.toList := by
  rw [isUsableIdentifier, Bool.and_eq_true, isIdentifier] at husable
  have hidentifier := husable.1
  cases hchars : text.toList with
  | nil => exact oneLine_nil
  | cons first rest =>
    rw [hchars, Bool.and_eq_true, List.all_eq_true] at hidentifier
    exact oneLine_cons.mpr ⟨isLineEnd_eq_false (by decide) (by decide) hidentifier.1,
      fun c hc ↦ isLineEnd_eq_false (by decide) (by decide) (hidentifier.2 c hc)⟩

end Quoted

end Text

open Text

/-! ### Numerals -/

section Numerals

@[simp] theorem oneLine_decimalDigits (value : Nat) : OneLine (decimalDigits value) :=
  fun _ hc ↦ isLineEnd_eq_false (by decide) (by decide) (isDigit_of_mem_decimalDigits hc)

@[simp] theorem oneLine_integerNumeral (value : Int) : OneLine (integerNumeral value) := by
  unfold integerNumeral
  split_ifs <;> simp [isLineEnd]

theorem oneLine_exponentText (exponent : Int) : OneLine (exponentText exponent) := by
  unfold exponentText
  dsimp only
  split_ifs <;> simp [isLineEnd]

variable {digits : List Char}

theorem oneLine_positional (hdigits : OneLine digits) (point : Int) :
    OneLine (positional digits point) := by
  unfold positional
  split_ifs with hbelow
  · simp [isLineEnd, hdigits]
  · have htake : OneLine (digits.take point.toNat) := hdigits.of_subset (List.take_subset ..)
    have hdrop : OneLine (digits.drop point.toNat) := hdigits.of_subset (List.drop_subset ..)
    dsimp only
    split_ifs <;> simp [isLineEnd, htake, hdrop]

theorem oneLine_scientific (hdigits : OneLine digits) (exponent : Int) :
    OneLine (scientific digits exponent) := by
  have htake : OneLine (digits.take 1) := hdigits.of_subset (List.take_subset ..)
  have hdrop : OneLine (digits.drop 1) := hdigits.of_subset (List.drop_subset ..)
  unfold scientific
  dsimp only
  rw [oneLine_append, oneLine_append]
  refine ⟨⟨htake, ?_⟩, oneLine_exponentText _⟩
  split_ifs
  · exact oneLine_nil
  · exact oneLine_cons.mpr ⟨rfl, hdrop⟩

theorem oneLine_shortestMagnitude (format : BinaryFormat) (mantissa : Nat) (exponent : Int) :
    OneLine (shortestMagnitude format mantissa exponent) := by
  have hdigits (value : Nat) : OneLine (dropFinalZeros (decimalDigits value)) := by
    obtain ⟨count, hvalue⟩ := eq_dropFinalZeros_append (decimalDigits value)
    exact (oneLine_append.mp (hvalue ▸ oneLine_decimalDigits value)).1
  unfold shortestMagnitude
  dsimp only
  split_ifs
  · decide
  · exact oneLine_positional (hdigits _) _
  · exact oneLine_scientific (hdigits _) _

@[simp] theorem oneLine_shortestNumeral (format : BinaryFormat) (number : BinaryNumber) :
    OneLine (shortestNumeral format number).toList := by
  cases number with
  | nan =>
    rw [shortestNumeral]
    decide
  | infinite negative =>
    rw [shortestNumeral]
    cases negative <;> decide
  | finite negative mantissa exponent =>
    rw [shortestNumeral, String.toList_ofList]
    split_ifs <;> simp [isLineEnd, oneLine_shortestMagnitude]

end Numerals

/-! ### Attribute values -/

theorem oneLine_commaSeparated {items : List (List Char)} (hitems : ∀ item ∈ items, OneLine item) :
    OneLine (commaSeparated items) := by
  induction items with
  | nil => exact oneLine_nil
  | cons first rest ih =>
    obtain ⟨hfirst, hrest⟩ := List.forall_mem_cons.mp hitems
    cases rest with
    | nil => exact hfirst
    | cons second rest =>
      rw [commaSeparated]
      · simp [isLineEnd, hfirst, ih hrest]
      · exact List.cons_ne_nil _ _

theorem oneLine_tupleCharacters {items : List (List Char)} (hitems : ∀ item ∈ items, OneLine item) :
    OneLine (tupleCharacters items) := by
  unfold tupleCharacters
  split
  · simp [isLineEnd, hitems _ (List.mem_cons_self ..)]
  · simp [isLineEnd, oneLine_commaSeparated hitems]

theorem TupleClass.oneLine_characters (form : TupleClass) {items : List (List Char)}
    (hitems : ∀ item ∈ items, OneLine item) : OneLine (form.characters items) := by
  have hnamed : ∀ item ∈ List.zipWith (fun field item ↦ field.toList ++ '=' :: item) form.fields
      items, OneLine item := by
    rw [← List.map_uncurry_zip_eq_zipWith, List.forall_mem_map]
    rintro ⟨field, item⟩ hpair
    obtain ⟨hfield, hitem⟩ := List.of_mem_zip hpair
    exact oneLine_append.mpr ⟨oneLine_of_isUsableIdentifier (form.fields_usable field hfield),
      oneLine_cons.mpr ⟨rfl, hitems item hitem⟩⟩
  simp [characters, isLineEnd, oneLine_of_isUsableIdentifier form.name_usable,
    oneLine_commaSeparated hnamed]

theorem oneLine_listCharacters {items : List (List Char)} (hitems : ∀ item ∈ items, OneLine item) :
    OneLine (listCharacters items) := by
  simp [listCharacters, isLineEnd, oneLine_commaSeparated hitems]

theorem Scalar.oneLine_literal (scalar : Scalar) : OneLine scalar.literal := by
  have hname : OneLine scalar.elementType.name.toList := by
    cases scalar.elementType <;> decide
  unfold Scalar.literal
  split
  · split_ifs <;> decide
  · simp [isLineEnd, hname]
  · simp [isLineEnd, hname]

namespace Attr

mutual

theorem oneLine_literalCharacters : (value : Attr) → OneLine value.literalCharacters
  | null => by decide
  | bool value => by cases value <;> decide
  | int value => oneLine_integerNumeral value
  | real value => oneLine_shortestNumeral .double value.toNumber
  | text value => oneLine_quote value
  | scalar value => value.oneLine_literal
  | list items => oneLine_listCharacters (oneLine_itemLiterals items)
  | tuple items none => oneLine_tupleCharacters (oneLine_itemLiterals items)
  | tuple items (some form) => form.oneLine_characters (oneLine_itemLiterals items)
  | record fields => by
    simp [literalCharacters, isLineEnd, oneLine_commaSeparated (oneLine_fieldLiterals fields)]

theorem oneLine_itemLiterals : (items : List Attr) → ∀ item ∈ itemLiterals items, OneLine item
  | [] => by simp [itemLiterals]
  | item :: rest => by
    rw [itemLiterals, List.forall_mem_cons]
    exact ⟨oneLine_literalCharacters item, oneLine_itemLiterals rest⟩

theorem oneLine_fieldLiterals : (fields : List (String × Attr)) →
    ∀ field ∈ fieldLiterals fields, OneLine field
  | [] => by simp [fieldLiterals]
  | (key, value) :: rest => by
    rw [fieldLiterals, List.forall_mem_cons]
    refine ⟨?_, oneLine_fieldLiterals rest⟩
    simp [isLineEnd, oneLine_quote, oneLine_literalCharacters value]

end

/-- A literal is on one line. -/
theorem oneLine_literal {value : Attr} {text : String} (htext : value.literal = .ok text) :
    OneLine text.toList := by
  obtain ⟨-, rfl⟩ := literal_eq_ok_iff.mp htext
  rw [String.toList_ofList]
  exact oneLine_literalCharacters _

/-- The text that a value is, if it is one. -/
def text? : Attr → Option String
  | text content => some content
  | _ => none

/-- A value that is shown as it is stands on one line if it is no text of several lines. -/
theorem oneLine_display {value : Attr} {shown : String} (hshown : value.display = .ok shown) :
    OneLine shown.toList ↔ ∀ content ∈ value.text?, OneLine content.toList := by
  cases value with
  | text content =>
    obtain rfl := Except.ok.inj hshown
    simp [text?]
  | _ => simpa [text?] using oneLine_literal hshown

end Attr

end Handover
