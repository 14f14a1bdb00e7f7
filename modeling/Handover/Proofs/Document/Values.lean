import Handover.Proofs.Computation
import Handover.Proofs.Document.Numbers
import Handover.Proofs.Document.Texts
import Handover.Proofs.OrderedMap

/-!
# Values in documents

A document gives a value back as it can hold it (`Attr.stored`): tuples come back as lists, scalars
as plain numbers, and every not-a-number as the plain one. Whatever the writer has written to the
end is read back so (`readDocument_writeDocument`), if no record has a key twice, no integer more
digits than can be read, and the values do not nest too deep (`Attr.isLegible`). The reader takes a
step for every value and for every item, of which a text holds no more than twice its length.
-/

set_option autoImplicit false
set_option relaxedAutoImplicit false

namespace Handover

namespace Attr

/-! ### Stored values -/

/-- The value in which a not-a-number at the top is the plain one. -/
def withPlainNaN : Attr → Attr
  | real value => real (Word.ofNumber .float64 value.toNumber)
  | value => value

mutual

/-- The value that a document gives back for a value. -/
def stored : Attr → Attr
  | real value => (real value).withPlainNaN
  | scalar value => value.plain.withPlainNaN
  | list items => list (storedItems items)
  | tuple items _ => list (storedItems items)
  | record fields => record (storedFields fields)
  | value => value

/-- The items that a document gives back for some items. -/
def storedItems : List Attr → List Attr
  | [] => []
  | item :: rest => item.stored :: storedItems rest

/-- The fields that a document gives back for some fields. -/
def storedFields : List (String × Attr) → List (String × Attr)
  | [] => []
  | (key, value) :: rest => (key, value.stored) :: storedFields rest

end

theorem storedItems_eq_map (items : List Attr) : storedItems items = items.map stored := by
  induction items with
  | nil => rfl
  | cons item rest ih => rw [storedItems, ih, List.map_cons]

theorem storedFields_eq_map (fields : List (String × Attr)) :
    storedFields fields = fields.map fun field ↦ (field.1, field.2.stored) := by
  induction fields with
  | nil => rfl
  | cons field rest ih => rw [storedFields, ih, List.map_cons]

/-! ### Legible values -/

mutual

/-- Whether what is written for a value can be read where so many values are open. -/
def isLegible (depth : Nat) : Attr → Bool
  | int value =>
    depth ≤ Document.nestingLimit && (decimalDigits value.natAbs).length ≤ integerDigitLimit
  | list items | tuple items _ => depth ≤ Document.nestingLimit && areLegible (depth + 1) items
  | record fields =>
    depth ≤ Document.nestingLimit && decide (fields.map Prod.fst).Nodup &&
      haveLegible (depth + 1) fields
  | _ => depth ≤ Document.nestingLimit

/-- Whether what is written for some items can be read. -/
def areLegible (depth : Nat) : List Attr → Bool
  | [] => true
  | item :: rest => item.isLegible depth && areLegible depth rest

/-- Whether what is written for the values of some fields can be read. -/
def haveLegible (depth : Nat) : List (String × Attr) → Bool
  | [] => true
  | (_, value) :: rest => value.isLegible depth && haveLegible depth rest

end

theorem areLegible_iff {depth : Nat} {items : List Attr} :
    areLegible depth items = true ↔ ∀ item ∈ items, item.isLegible depth = true := by
  induction items with
  | nil => simp [areLegible]
  | cons item rest ih => rw [areLegible, Bool.and_eq_true, ih, List.forall_mem_cons]

theorem haveLegible_iff {depth : Nat} {fields : List (String × Attr)} :
    haveLegible depth fields = true ↔ ∀ field ∈ fields, field.2.isLegible depth = true := by
  induction fields with
  | nil => simp [haveLegible]
  | cons field rest ih => rw [haveLegible, Bool.and_eq_true, ih, List.forall_mem_cons]

theorem le_of_isLegible {depth : Nat} {value : Attr} (hlegible : value.isLegible depth = true) :
    depth ≤ Document.nestingLimit := by
  cases value <;> simp_all [isLegible]

end Attr

namespace Document

/-! ### What begins a value -/

section Beginnings

/-- A space and a bracket begin no number and no word. -/
theorem readSimple_special {c : Char}
    (hc : isSpace c = true ∨ c ∈ ['\x22', '[', ']', '\x7b', '\x7d']) (rest : List Char) :
    readSimple (c :: rest) = .error .malformed := by
  have hspecial : c ∈ [' ', '\t', '\n', '\r', '\x22', '[', ']', '\x7b', '\x7d'] := by
    rcases hc with hc | hc
    · simp only [isSpace, Bool.or_eq_true, beq_iff_eq] at hc
      simp only [List.mem_cons]
      tauto
    · simp only [List.mem_cons] at hc ⊢
      tauto
  simp only [List.mem_cons, List.not_mem_nil, or_false] at hspecial
  rcases hspecial with rfl | rfl | rfl | rfl | rfl | rfl | rfl | rfl | rfl <;> rfl

/-- A number or a word is read as a value. -/
theorem readValue_of_readSimple {depth : Nat} (hdepth : depth ≤ nestingLimit) (fuel : Nat)
    {text : List Char} {found : Found Attr} (hread : readSimple text = .ok found) :
    readValue depth (fuel + 1) text = .ok found := by
  have hspecial : ∀ c ∈ ['\x22', '[', ']', '\x7b', '\x7d'], ∀ rest, text ≠ c :: rest := by
    rintro c hc rest rfl
    rw [readSimple_special (.inr hc)] at hread
    cases hread
  unfold readValue
  rw [if_neg (Nat.not_lt.mpr hdepth)]
  split
  · exact absurd rfl (hspecial '\x22' (by simp) _)
  · exact absurd rfl (hspecial '[' (by simp) _)
  · exact absurd rfl (hspecial '\x7b' (by simp) _)
  · exact hread

/-- A value that can be read begins with no space, and not as the end of a collection. -/
theorem exists_eq_cons_of_readValue {depth fuel : Nat} {text : List Char} {found : Found Attr}
    (hread : readValue depth fuel text = .ok found) :
    ∃ c rest, text = c :: rest ∧ isSpace c = false ∧ c ≠ ']' := by
  cases fuel with
  | zero => cases hread
  | succ fuel =>
    unfold readValue at hread
    split_ifs at hread
    split at hread
    · exact ⟨_, _, rfl, rfl, by decide⟩
    · exact ⟨_, _, rfl, rfl, by decide⟩
    · exact ⟨_, _, rfl, rfl, by decide⟩
    · cases text with
      | nil => cases hread
      | cons c rest =>
        refine ⟨c, rest, rfl, ?_, ?_⟩
        · by_contra hspace
          rw [readSimple_special (.inl (by simpa using hspace))] at hread
          cases hread
        · rintro rfl
          rw [readSimple_special (.inr (by simp))] at hread
          cases hread

theorem exists_eq_cons_of_readItems {depth fuel : Nat} {text : List Char}
    {found : Found (List Attr)} (hread : readItems depth fuel text = .ok found) :
    ∃ c rest, text = c :: rest ∧ isSpace c = false ∧ c ≠ ']' := by
  cases fuel with
  | zero => cases hread
  | succ fuel =>
    rw [readItems] at hread
    cases hvalue : readValue depth fuel text with
    | error flaw =>
      rw [hvalue] at hread
      cases hread
    | ok found => exact exists_eq_cons_of_readValue hvalue

theorem exists_eq_cons_of_readFields {depth fuel : Nat} {text : List Char}
    {found : Found (List (String × Attr))} (hread : readFields depth fuel text = .ok found) :
    ∃ rest, text = '\x22' :: rest := by
  cases fuel with
  | zero => cases hread
  | succ fuel =>
    unfold readFields at hread
    split at hread
    · exact ⟨_, rfl⟩
    · cases hread

end Beginnings

/-! ### Lines -/

section Lines

theorem skipSpaces_of_not_space {c : Char} (hc : isSpace c = false) (rest : List Char) :
    skipSpaces (c :: rest) = c :: rest := by
  rw [skipSpaces, List.dropWhile_cons_of_neg (by simp [hc])]

theorem skipSpaces_lineBreak (level : Nat) (rest : List Char) :
    skipSpaces (lineBreak level ++ rest) = skipSpaces rest := by
  have hspaces : ∀ c ∈ lineBreak level, isSpace c = true := by
    intro c hc
    rcases List.mem_cons.mp hc with rfl | hc
    · rfl
    · rw [List.eq_of_mem_replicate hc]
      rfl
  rw [skipSpaces, List.dropWhile_append_of_pos hspaces, skipSpaces]

theorem endsNumber_lineBreak (level : Nat) (rest : List Char) :
    EndsNumber (lineBreak level ++ rest) := by
  rintro c ⟨⟩
  decide

theorem endsNumber_comma (rest : List Char) : EndsNumber (',' :: rest) := by
  rintro c ⟨⟩
  decide

/-- What is written for the parts of a collection between its brackets, but for the first and the
last line break. -/
def lines (level : Nat) : List Written → List Char
  | [] => []
  | part :: rest => part.text ++ rest.flatMap fun next ↦ ',' :: (lineBreak level ++ next.text)

theorem lines_cons_cons (level : Nat) (part next : Written) (rest : List Written) :
    lines level (part :: next :: rest) =
      part.text ++ ',' :: (lineBreak level ++ lines level (next :: rest)) := by
  simp [lines]

theorem stopped_andThen {first second : Written} :
    (first.andThen second).stopped = none ↔ first.stopped = none ∧ second.stopped = none := by
  unfold Written.andThen
  split_ifs with hfirst
  · simp [Option.isSome_iff_ne_none.mp hfirst]
  · simpa using fun _ ↦ hfirst

theorem text_andThen {first : Written} (hfirst : first.stopped = none) (second : Written) :
    (first.andThen second).text = first.text ++ second.text := by
  rw [Written.andThen, if_neg (by simp [hfirst])]

/-- What is written for some parts after a start, if nothing stops the writer. -/
theorem text_foldl_andThen {level : Nat} {parts : List Written} {start : Written}
    (hstopped : (parts.foldl (fun written part ↦
      (written.andThen ⟨',' :: lineBreak level, none⟩).andThen part) start).stopped = none) :
    start.stopped = none ∧ (∀ part ∈ parts, part.stopped = none) ∧
      (parts.foldl (fun written part ↦
        (written.andThen ⟨',' :: lineBreak level, none⟩).andThen part) start).text =
        start.text ++ parts.flatMap fun part ↦ ',' :: (lineBreak level ++ part.text) := by
  induction parts generalizing start with
  | nil => exact ⟨hstopped, by simp, by simp⟩
  | cons part rest ih =>
    obtain ⟨hfirst, hrest, htext⟩ := ih hstopped
    obtain ⟨hseparated, hpart⟩ := stopped_andThen.mp hfirst
    obtain ⟨hstart, -⟩ := stopped_andThen.mp hseparated
    refine ⟨hstart, ?_, ?_⟩
    · rintro other hother
      rcases List.mem_cons.mp hother with rfl | hother
      · exact hpart
      · exact hrest other hother
    · rw [List.foldl_cons, htext, text_andThen hseparated, text_andThen hstart,
        List.flatMap_cons]
      simp

/-- What is written for a collection with parts, if nothing stops the writer. -/
theorem text_enclose {level : Nat} {opening closing : Char} {parts : List Written}
    (hsome : parts ≠ []) (hstopped : (enclose level opening closing parts).stopped = none) :
    (∀ part ∈ parts, part.stopped = none) ∧
      (enclose level opening closing parts).text = opening :: (lineBreak (level + 1) ++
        (lines (level + 1) parts ++ (lineBreak level ++ [closing]))) := by
  obtain ⟨first, rest, rfl⟩ := List.exists_cons_of_ne_nil hsome
  obtain ⟨hbody, -⟩ := stopped_andThen.mp hstopped
  obtain ⟨hstart, hrest, htext⟩ := text_foldl_andThen hbody
  obtain ⟨hopening, hfirst⟩ := stopped_andThen.mp hstart
  refine ⟨?_, ?_⟩
  · intro part hpart
    rcases List.mem_cons.mp hpart with rfl | hpart
    · exact hfirst
    · exact hrest part hpart
  · rw [enclose, text_andThen hbody, joinLines, htext, text_andThen hopening]
    simp [lines]

/-- The integers of items that can be read have few enough digits to be written. -/
theorem encloseItems_of_areLegible {depth : Nat} {items : List Attr}
    (hlegible : Attr.areLegible depth items = true) (level : Nat) (parts : List Written) :
    encloseItems level items parts = enclose level '[' ']' parts := by
  have hformed : ∀ item ∈ items, isFormed item = true := by
    intro item hitem
    have hown := Attr.areLegible_iff.mp hlegible item hitem
    cases item with
    | int value =>
      rw [Attr.isLegible, Bool.and_eq_true] at hown
      exact hown.2
    | _ => rfl
  rw [encloseItems, List.takeWhile_eq_self_iff.mpr hformed]
  exact if_pos rfl

end Lines

/-! ### Collections -/

section Collections

variable {depth fuel : Nat} {after : List Char}

/-- The last item of a list is read up to the closing bracket. -/
theorem readItems_last {text : List Char} {item : Attr} (level : Nat)
    (hitem : readValue depth fuel text = .ok (item, lineBreak level ++ ']' :: after)) :
    readItems depth (fuel + 1) text = .ok ([item], after) := by
  have hskip : skipSpaces (lineBreak level ++ ']' :: after) = ']' :: after := by
    rw [skipSpaces_lineBreak, skipSpaces_of_not_space rfl]
  simp only [readItems, hitem, bind, Except.bind, hskip]
  rfl

/-- An item of a list is read up to the comma, and what follows it as the other items. -/
theorem readItems_eq_bind {text more : List Char} {item : Attr} (level : Nat)
    (hmore : skipSpaces more = more)
    (hitem : readValue depth fuel text = .ok (item, ',' :: (lineBreak level ++ more))) :
    readItems depth (fuel + 1) text = do
      let (items, after) ← readItems depth fuel more
      return (item :: items, after) := by
  have hskip : skipSpaces (',' :: (lineBreak level ++ more)) = ',' :: (lineBreak level ++ more) :=
    skipSpaces_of_not_space rfl _
  simp only [readItems, hitem, bind, Except.bind, hskip, skipSpaces_lineBreak, hmore]

/-- An item of a list is read up to the comma, and the other items after it. -/
theorem readItems_cons {text more : List Char} {item : Attr} {items : List Attr} (level : Nat)
    (hitem : readValue depth fuel text = .ok (item, ',' :: (lineBreak level ++ more)))
    (hitems : readItems depth fuel more = .ok (items, after)) :
    readItems depth (fuel + 1) text = .ok (item :: items, after) := by
  obtain ⟨c, rest, rfl, hc, -⟩ := exists_eq_cons_of_readItems hitems
  rw [readItems_eq_bind level (skipSpaces_of_not_space hc rest) hitem, hitems]
  rfl

theorem readValue_empty_list (hdepth : depth ≤ nestingLimit) :
    readValue depth (fuel + 1) ('[' :: ']' :: after) = .ok (.list [], after) := by
  have hskip : skipSpaces (']' :: after) = ']' :: after := skipSpaces_of_not_space rfl _
  simp only [readValue, hskip]
  rw [if_neg (Nat.not_lt.mpr hdepth)]

/-- A list with items is read from its lines between the brackets. -/
theorem readValue_list {text : List Char} {items : List Attr} (level : Nat)
    (hdepth : depth ≤ nestingLimit)
    (hitems : readItems (depth + 1) fuel text = .ok (items, after)) :
    readValue depth (fuel + 1) ('[' :: (lineBreak level ++ text)) = .ok (.list items, after) := by
  obtain ⟨c, rest, rfl, hspace, hc⟩ := exists_eq_cons_of_readItems hitems
  simp only [readValue, skipSpaces_lineBreak, skipSpaces_of_not_space hspace]
  rw [if_neg (Nat.not_lt.mpr hdepth)]
  split
  · rename_i heq
    exact absurd (List.cons.inj heq).1 hc
  · rw [hitems]
    rfl

/-- The key of a field is read with the colon after it, and what follows as the value. -/
theorem readFields_quoted (key : String) {text : List Char} (htext : skipSpaces text = text) :
    readFields depth (fuel + 1) (quoted key ++ ':' :: ' ' :: text) = (do
      let (value, rest) ← readValue depth fuel text
      match skipSpaces rest with
      | '\x7d' :: after => return ([(key, value)], after)
      | ',' :: rest =>
        let (fields, after) ← readFields depth fuel (skipSpaces rest)
        return ((key, value) :: fields, after)
      | _ => throw .malformed) := by
  have hquote : quoted key ++ ':' :: ' ' :: text =
      '\x22' :: (key.toList.flatMap escapeCharacter ++ '\x22' :: ':' :: ' ' :: text) := by
    simp [quoted]
  -- the reader skips the spaces before a value, of which there is one
  conv_rhs => rw [← htext]
  rw [hquote, readFields, readText_quoted]
  rfl

theorem skipSpaces_of_readValue {text : List Char} {value : Found Attr}
    (hvalue : readValue depth fuel text = .ok value) : skipSpaces text = text := by
  obtain ⟨c, rest, rfl, hc, -⟩ := exists_eq_cons_of_readValue hvalue
  exact skipSpaces_of_not_space hc rest

/-- The last field of a record is read up to the closing brace. -/
theorem readFields_last {key : String} {text : List Char} {value : Attr} (level : Nat)
    (hvalue : readValue depth fuel text = .ok (value, lineBreak level ++ '\x7d' :: after)) :
    readFields depth (fuel + 1) (quoted key ++ ':' :: ' ' :: text) =
      .ok ([(key, value)], after) := by
  have hend : skipSpaces (lineBreak level ++ '\x7d' :: after) = '\x7d' :: after := by
    rw [skipSpaces_lineBreak, skipSpaces_of_not_space rfl]
  rw [readFields_quoted key (skipSpaces_of_readValue hvalue), hvalue]
  simp only [bind, Except.bind, hend]
  rfl

/-- A field of a record is read up to the comma, and what follows it as the other fields. -/
theorem readFields_eq_bind {key : String} {text others : List Char} {value : Attr} (level : Nat)
    (hvalue : readValue depth fuel text =
      .ok (value, ',' :: (lineBreak level ++ '\x22' :: others))) :
    readFields depth (fuel + 1) (quoted key ++ ':' :: ' ' :: text) = do
      let (fields, after) ← readFields depth fuel ('\x22' :: others)
      return ((key, value) :: fields, after) := by
  have hcomma : skipSpaces (',' :: (lineBreak level ++ '\x22' :: others)) =
      ',' :: (lineBreak level ++ '\x22' :: others) := skipSpaces_of_not_space rfl _
  have hquote : skipSpaces ('\x22' :: others) = '\x22' :: others := skipSpaces_of_not_space rfl _
  rw [readFields_quoted key (skipSpaces_of_readValue hvalue), hvalue]
  simp only [bind, Except.bind, hcomma, skipSpaces_lineBreak, hquote]

/-- A field of a record is read up to the comma, and the other fields after it. -/
theorem readFields_cons {key : String} {text more : List Char} {value : Attr}
    {fields : List (String × Attr)} (level : Nat)
    (hvalue : readValue depth fuel text = .ok (value, ',' :: (lineBreak level ++ more)))
    (hfields : readFields depth fuel more = .ok (fields, after)) :
    readFields depth (fuel + 1) (quoted key ++ ':' :: ' ' :: text) =
      .ok ((key, value) :: fields, after) := by
  obtain ⟨others, rfl⟩ := exists_eq_cons_of_readFields hfields
  rw [readFields_eq_bind level hvalue, hfields]
  rfl

theorem readValue_empty_record (hdepth : depth ≤ nestingLimit) :
    readValue depth (fuel + 1) ('\x7b' :: '\x7d' :: after) = .ok (.record [], after) := by
  have hskip : skipSpaces ('\x7d' :: after) = '\x7d' :: after := skipSpaces_of_not_space rfl _
  simp only [readValue, hskip]
  rw [if_neg (Nat.not_lt.mpr hdepth)]

/-- A record with fields is read from its lines between the braces. -/
theorem readValue_record {text : List Char} {fields : List (String × Attr)} (level : Nat)
    (hdepth : depth ≤ nestingLimit) (hkeys : (fields.map Prod.fst).Nodup)
    (hfields : readFields (depth + 1) fuel text = .ok (fields, after)) :
    readValue depth (fuel + 1) ('\x7b' :: (lineBreak level ++ text)) =
      .ok (.record fields, after) := by
  obtain ⟨rest, rfl⟩ := exists_eq_cons_of_readFields hfields
  have hskip : skipSpaces ('\x22' :: rest) = '\x22' :: rest := skipSpaces_of_not_space rfl _
  simp only [readValue, skipSpaces_lineBreak, hskip]
  rw [if_neg (Nat.not_lt.mpr hdepth)]
  split
  · rename_i heq
    exact absurd (List.cons.inj heq).1 (by decide)
  · rw [hfields]
    simp only [bind, Except.bind, pure, Except.pure, OrderedMap.entries_ofList hkeys]

end Collections

/-! ### Values -/

section Values

/-- The integer of a word has no more than twenty digits. -/
theorem length_digits_toInt {t : ElementType} (word : Word t) :
    (decimalDigits word.toInt.natAbs).length ≤ 20 := by
  have hword : word.toNat < 2 ^ t.width := word.isLt
  have hwidth : 2 ^ t.width ≤ 2 ^ 64 := Nat.pow_le_pow_right (by decide) (by cases t <;> decide)
  have hlarge : 2 ^ 64 < 10 ^ 20 := by decide
  refine (length_decimalDigits_le (by decide)).mpr ?_
  unfold Word.toInt
  split
  · rw [BitVec.toInt_eq_toNat_cond]
    split_ifs <;> omega
  · rw [Int.natAbs_natCast]
    omega

/-- A scalar as a plain value. -/
theorem plain_cases (value : Scalar) :
    (∃ truth, value.plain = .bool truth) ∨
      (∃ integer, value.plain = .int integer ∧
        (decimalDigits integer.natAbs).length ≤ integerDigitLimit) ∨
      ∃ word, value.plain = .real word := by
  unfold Scalar.plain
  split
  · exact .inl ⟨_, rfl⟩
  · exact .inr (.inl ⟨_, rfl, (length_digits_toInt _).trans (by decide)⟩)
  · exact .inr (.inr ⟨_, rfl⟩)

/-- A value without parts that is written to the end is read as a number or a word, unless it is a
text. -/
theorem readSimple_writeSimple {value : Attr} {depth : Nat} {rest : List Char}
    (hstopped : (writeSimple value).stopped = none) (htext : ∀ content, value ≠ .text content)
    (hitems : ∀ items, value ≠ .list items ∧ ∀ form, value ≠ .tuple items form)
    (hfields : ∀ fields, value ≠ .record fields) (hlegible : value.isLegible depth = true)
    (hrest : EndsNumber rest) :
    readSimple ((writeSimple value).text ++ rest) = .ok (value.stored, rest) := by
  cases value with
  | null => exact readSimple_null rest
  | bool value => exact readSimple_bool value rest
  | int value =>
    simp only [Attr.isLegible, Bool.and_eq_true, decide_eq_true_eq] at hlegible
    rw [writeSimple, writeInteger, if_pos (by simpa [isShortInteger] using hlegible.2)]
    exact readSimple_integerNumeral value hlegible.2 hrest
  | real value => exact readSimple_numeral value hrest
  | text value => exact absurd rfl (htext value)
  | scalar value =>
    rcases plain_cases value with ⟨truth, hplain⟩ | ⟨integer, hplain, hdigits⟩ | ⟨word, hplain⟩
    · simp [writeSimple, hplain] at hstopped
    · simp only [writeSimple, Attr.stored, hplain]
      exact readSimple_integerNumeral integer hdigits hrest
    · simp only [writeSimple, Attr.stored, hplain]
      exact readSimple_numeral word hrest
  | list items => exact absurd rfl (hitems items).1
  | tuple items form => exact absurd rfl ((hitems items).2 form)
  | record fields => exact absurd rfl (hfields fields)

theorem readValue_quoted {depth : Nat} (hdepth : depth ≤ nestingLimit) (fuel : Nat)
    (content : String) (rest : List Char) :
    readValue depth (fuel + 1) (quoted content ++ rest) = .ok (.text content, rest) := by
  have htext : quoted content ++ rest =
      '\x22' :: (content.toList.flatMap escapeCharacter ++ '\x22' :: rest) := by simp [quoted]
  rw [htext]
  simp only [readValue, readText_quoted]
  rw [if_neg (Nat.not_lt.mpr hdepth)]
  rfl

mutual

/-- What is written for a value is read as what a document gives back for it. -/
theorem readValue_writeValue (value : Attr) (level depth fuel : Nat) (rest : List Char)
    (hstopped : (writeValue level value).stopped = none) (hlegible : value.isLegible depth = true)
    (hrest : EndsNumber rest) (hfuel : 2 * (writeValue level value).text.length + 1 ≤ fuel) :
    readValue depth fuel ((writeValue level value).text ++ rest) = .ok (value.stored, rest) := by
  have hdepth := Attr.le_of_isLegible hlegible
  obtain ⟨fuel, rfl⟩ := Nat.exists_eq_succ_of_ne_zero (by omega : fuel ≠ 0)
  cases value with
  | null | bool | int | real | scalar =>
    exact readValue_of_readSimple hdepth fuel (readSimple_writeSimple hstopped
      (by simp) (by simp) (by simp) hlegible hrest)
  | text content => exact readValue_quoted hdepth fuel content rest
  | list items | tuple items =>
    cases items with
    | nil => exact readValue_empty_list hdepth
    | cons item others =>
      simp only [Attr.isLegible, Bool.and_eq_true] at hlegible
      rw [writeValue, encloseItems_of_areLegible hlegible.2] at hstopped hfuel ⊢
      obtain ⟨hparts, htext⟩ := text_enclose (by simp [writeItems]) hstopped
      simp only [htext, List.length_cons, List.length_append] at hfuel ⊢
      have hitems := readItems_writeItems (item :: others) (level + 1) level (depth + 1) fuel rest
        (by simp) hparts hlegible.2 (by simp only [lineBreak, List.length_cons] at hfuel; omega)
      simpa [Attr.stored] using readValue_list (level + 1) hdepth hitems
  | record fields =>
    cases fields with
    | nil => exact readValue_empty_record hdepth
    | cons field others =>
      simp only [Attr.isLegible, Bool.and_eq_true, decide_eq_true_eq] at hlegible
      obtain ⟨hparts, htext⟩ := text_enclose (by simp [writeFields]) hstopped
      simp only [writeValue, htext, List.length_cons, List.length_append] at hfuel ⊢
      have hfields := readFields_writeFields (field :: others) (level + 1) level (depth + 1) fuel
        rest (by simp) hparts hlegible.2
        (by simp only [lineBreak, List.length_cons] at hfuel; omega)
      have hkeys : ((Attr.storedFields (field :: others)).map Prod.fst).Nodup := by
        rw [Attr.storedFields_eq_map, List.map_map]
        exact hlegible.1.2
      simpa [Attr.stored] using readValue_record (level + 1) hdepth hkeys hfields

/-- What is written for the items of a list is read up to the closing bracket. -/
theorem readItems_writeItems (items : List Attr) (level below depth fuel : Nat) (rest : List Char)
    (hsome : items ≠ []) (hstopped : ∀ part ∈ writeItems level items, part.stopped = none)
    (hlegible : Attr.areLegible depth items = true)
    (hfuel : 2 * (lines level (writeItems level items)).length + 2 ≤ fuel) :
    readItems depth fuel (lines level (writeItems level items) ++
      (lineBreak below ++ ']' :: rest)) = .ok (Attr.storedItems items, rest) := by
  obtain ⟨fuel, rfl⟩ := Nat.exists_eq_succ_of_ne_zero (by omega : fuel ≠ 0)
  cases items with
  | nil => exact absurd rfl hsome
  | cons item others =>
    simp only [Attr.areLegible, Bool.and_eq_true] at hlegible
    simp only [writeItems, List.forall_mem_cons] at hstopped hfuel ⊢
    cases others with
    | nil =>
      simp only [lines, writeItems, List.flatMap_nil, List.append_nil] at hfuel ⊢
      exact readItems_last below (readValue_writeValue item level depth fuel _ hstopped.1
        hlegible.1 (endsNumber_lineBreak below _) (by omega))
    | cons next others =>
      have hlength : 2 * ((writeValue level item).text.length + 1 +
          (lines level (writeItems level (next :: others))).length) + 2 ≤ fuel + 1 := by
        simp only [writeItems, lines_cons_cons, List.length_append, List.length_cons] at hfuel ⊢
        omega
      have hitems := readItems_writeItems (next :: others) level below depth fuel rest (by simp)
        hstopped.2 hlegible.2 (by omega)
      have hitem := readValue_writeValue item level depth fuel (',' :: (lineBreak level ++
        (lines level (writeItems level (next :: others)) ++ (lineBreak below ++ ']' :: rest))))
        hstopped.1 hlegible.1 (endsNumber_comma _) (by omega)
      simpa [writeItems, lines_cons_cons, Attr.storedItems] using readItems_cons level hitem hitems

/-- What is written for the fields of a record is read up to the closing brace. -/
theorem readFields_writeFields (fields : List (String × Attr)) (level below depth fuel : Nat)
    (rest : List Char) (hsome : fields ≠ [])
    (hstopped : ∀ part ∈ writeFields level fields, part.stopped = none)
    (hlegible : Attr.haveLegible depth fields = true)
    (hfuel : 2 * (lines level (writeFields level fields)).length + 2 ≤ fuel) :
    readFields depth fuel (lines level (writeFields level fields) ++
      (lineBreak below ++ '\x7d' :: rest)) = .ok (Attr.storedFields fields, rest) := by
  obtain ⟨fuel, rfl⟩ := Nat.exists_eq_succ_of_ne_zero (by omega : fuel ≠ 0)
  cases fields with
  | nil => exact absurd rfl hsome
  | cons field others =>
    obtain ⟨key, value⟩ := field
    simp only [Attr.haveLegible, Bool.and_eq_true] at hlegible
    simp only [writeFields, List.forall_mem_cons, stopped_andThen] at hstopped
    have hstart : (⟨quoted key ++ [':', ' '], none⟩ : Written).stopped = none := rfl
    have htext := text_andThen hstart (writeValue level value)
    cases others with
    | nil =>
      simp only [lines, writeFields, List.flatMap_nil, List.append_nil, htext,
        List.length_append] at hfuel
      have hvalue := readValue_writeValue value level depth fuel (lineBreak below ++ '\x7d' :: rest)
        hstopped.1.2 hlegible.1 (endsNumber_lineBreak below _) (by omega)
      simpa [writeFields, lines, htext, Attr.storedFields] using readFields_last below hvalue
    | cons next others =>
      obtain ⟨nextKey, nextValue⟩ := next
      have hlength : 2 * ((writeValue level value).text.length + 1 +
          (lines level (writeFields level ((nextKey, nextValue) :: others))).length) + 2 ≤
            fuel + 1 := by
        simp only [writeFields, lines_cons_cons, htext, List.length_append, List.length_cons]
          at hfuel ⊢
        omega
      have hfields := readFields_writeFields ((nextKey, nextValue) :: others) level below depth fuel
        rest (by simp) hstopped.2 hlegible.2 (by omega)
      have hvalue := readValue_writeValue value level depth fuel (',' :: (lineBreak level ++
        (lines level (writeFields level ((nextKey, nextValue) :: others)) ++
          (lineBreak below ++ '\x7d' :: rest)))) hstopped.1.2 hlegible.1 (endsNumber_comma _)
        (by omega)
      simpa [writeFields, lines_cons_cons, htext, Attr.storedFields] using
        readFields_cons level hvalue hfields

end

/-- A document that is written to the end is read as what it gives back for the value. -/
theorem readDocument_writeDocument {value : Attr} (hstopped : (writeDocument value).stopped = none)
    (hlegible : value.isLegible 0 = true) :
    readDocument (String.ofList (writeDocument value).text) = .ok value.stored := by
  have hread := readValue_writeValue value 0 0 (2 * (writeDocument value).text.length + 2) []
    hstopped hlegible (by simp [EndsNumber]) (Nat.le_succ _)
  rw [List.append_nil] at hread
  obtain ⟨c, rest, htext, hc, -⟩ := exists_eq_cons_of_readValue hread
  have hskip : skipSpaces (writeDocument value).text = (writeDocument value).text := by
    rw [writeDocument, htext, skipSpaces_of_not_space hc]
  simp only [readDocument, String.toList_ofList, hskip]
  rw [writeDocument] at hread ⊢
  rw [hread]
  rfl

end Values

end Document

end Handover
