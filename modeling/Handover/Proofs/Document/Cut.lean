import Handover.Proofs.Document.Values
import Handover.Proofs.Element

/-!
# Documents that are cut short

A truth-valued scalar inside a record stays as it is in a graph and cannot be written
(`Attr.isStorable`, `stopped_writeValue`). The writer stops there, whatever stands before it, and
what it wrote so far ends inside every collection that is open. Such a text is no document: the
reader reads the parts before the stop as they were written, and then misses the rest
(`readDocument_cut`). What is written to the end and read back is written the same way again
(`writeValue_stored`).
-/

set_option autoImplicit false
set_option relaxedAutoImplicit false

namespace Handover

namespace Attr

/-! ### Storable values -/

mutual

/-- Whether a value can be written to the end. -/
def isStorable : Attr → Bool
  | int value => isShortInteger value
  | scalar value =>
    match value.plain with
    | .bool _ => false
    | _ => true
  | list items | tuple items _ => areStorable items
  | record fields => haveStorable fields
  | _ => true

/-- Whether some items can be written to the end. -/
def areStorable : List Attr → Bool
  | [] => true
  | item :: rest => item.isStorable && areStorable rest

/-- Whether the values of some fields can be written to the end. -/
def haveStorable : List (String × Attr) → Bool
  | [] => true
  | (_, value) :: rest => value.isStorable && haveStorable rest

end

/-- An integer that can be read back can be written. -/
theorem isStorable_int {value : Int} {depth : Nat} (hlegible : (int value).isLegible depth = true) :
    (int value).isStorable ≠ false := by
  rw [isLegible, Bool.and_eq_true] at hlegible
  rw [isStorable, isShortInteger, hlegible.2]
  decide

end Attr

namespace Document

/-- The complaint of the writer about a truth-valued scalar. -/
def notWritten : Complaint := .notStorable "<class 'numpy.bool'>"

/-! ### Where the writer stops -/

section Stops

variable {level : Nat} {opening closing : Char} {parts : List Written}

/-- Where the writer stops in the parts of a collection, if it does. -/
def firstStop (parts : List Written) : Option Error := parts.findSome? Written.stopped

/-- What is written for the parts of a collection up to the one that stops the writer. -/
def cutLines (level : Nat) : List Written → List Char
  | [] => []
  | part :: rest =>
    if part.stopped.isSome then part.text
    else part.text ++ ',' :: (lineBreak level ++ cutLines level rest)

theorem andThen_of_stopped {first : Written} (hfirst : first.stopped.isSome = true)
    (second : Written) : first.andThen second = first := if_pos hfirst

theorem foldl_andThen_of_stopped {start : Written} (hstart : start.stopped.isSome = true) :
    parts.foldl (fun written part ↦
      (written.andThen ⟨',' :: lineBreak level, none⟩).andThen part) start = start := by
  induction parts with
  | nil => rfl
  | cons part rest ih =>
    rw [List.foldl_cons, andThen_of_stopped hstart, andThen_of_stopped hstart, ih]

/-- What is written for some parts of which one stops the writer. -/
theorem foldl_andThen_cut {start : Written} (hstart : start.stopped = none)
    (hstop : (firstStop parts).isSome = true) :
    parts.foldl (fun written part ↦
      (written.andThen ⟨',' :: lineBreak level, none⟩).andThen part) start =
        ⟨start.text ++ ',' :: (lineBreak level ++ cutLines level parts), firstStop parts⟩ := by
  induction parts generalizing start with
  | nil => cases hstop
  | cons part rest ih =>
    have hnext : (start.andThen ⟨',' :: lineBreak level, none⟩).andThen part =
        ⟨start.text ++ (',' :: lineBreak level) ++ part.text, part.stopped⟩ := by
      simp [Written.andThen, hstart]
    rw [List.foldl_cons, hnext, firstStop, List.findSome?_cons, cutLines]
    cases hpart : part.stopped with
    | some err =>
      rw [foldl_andThen_of_stopped (by rfl)]
      simp
    | none =>
      rw [firstStop, List.findSome?_cons, hpart] at hstop
      rw [ih rfl hstop]
      simp [firstStop]

/-- What is written for a collection of which one part stops the writer: neither the parts after it
nor the closing bracket. -/
theorem enclose_cut (hstop : (firstStop parts).isSome = true) :
    enclose level opening closing parts =
      ⟨opening :: (lineBreak (level + 1) ++ cutLines (level + 1) parts), firstStop parts⟩ := by
  cases parts with
  | nil => cases hstop
  | cons first rest =>
    have hstart : Written.andThen ⟨opening :: lineBreak (level + 1), none⟩ first =
        ⟨opening :: lineBreak (level + 1) ++ first.text, first.stopped⟩ := rfl
    rw [enclose, joinLines, hstart, firstStop, List.findSome?_cons, cutLines]
    cases hfirst : first.stopped with
    | some err =>
      rw [foldl_andThen_of_stopped (by rfl), andThen_of_stopped (by rfl)]
      simp
    | none =>
      rw [firstStop, List.findSome?_cons, hfirst] at hstop
      rw [foldl_andThen_cut rfl hstop, andThen_of_stopped (by exact hstop)]
      simp [firstStop]

theorem firstStop_append_of_stopped (hstop : (firstStop parts).isSome = true)
    (more : List Written) : firstStop (parts ++ more) = firstStop parts := by
  rw [firstStop, firstStop, List.findSome?_append]
  exact Option.or_of_isSome hstop

/-- Parts after the one that stops the writer do not count. -/
theorem cutLines_append (hstop : (firstStop parts).isSome = true) (more : List Written) :
    cutLines level (parts ++ more) = cutLines level parts := by
  induction parts with
  | nil => cases hstop
  | cons part rest ih =>
    rw [List.cons_append, cutLines, cutLines]
    cases hpart : part.stopped with
    | some err => rfl
    | none =>
      rw [firstStop, List.findSome?_cons, hpart] at hstop
      rw [ih hstop]

theorem stopped_andThen_eq (first second : Written) :
    (first.andThen second).stopped = first.stopped.or second.stopped := by
  unfold Written.andThen
  cases hfirst : first.stopped <;> simp [hfirst]

theorem firstStop_cons (part : Written) (rest : List Written) :
    firstStop (part :: rest) = part.stopped.or (firstStop rest) := by
  rw [firstStop, List.findSome?_cons]
  cases part.stopped <;> rfl

theorem stopped_foldl_andThen (start : Written) :
    (parts.foldl (fun written part ↦
      (written.andThen ⟨',' :: lineBreak level, none⟩).andThen part) start).stopped =
        start.stopped.or (firstStop parts) := by
  induction parts generalizing start with
  | nil => exact Option.or_none.symm
  | cons part rest ih =>
    rw [List.foldl_cons, ih, stopped_andThen_eq, stopped_andThen_eq, Option.or_none,
      Option.or_assoc, firstStop_cons]

/-- A collection stops the writer where the first of its parts does. -/
theorem stopped_enclose : (enclose level opening closing parts).stopped = firstStop parts := by
  cases parts with
  | nil => rfl
  | cons first rest =>
    rw [enclose, stopped_andThen_eq, Option.or_none, joinLines, stopped_foldl_andThen,
      stopped_andThen_eq, Option.none_or, firstStop_cons]

end Stops

section Storable

/-- What stops the writer at a value that can be read back, if it cannot be written: a truth-valued
scalar. -/
def stopOf (storable : Bool) : Option Error :=
  if storable then none else some (.complaint notWritten)

mutual

/-- The writer stops at a value that cannot be written, and at no other. -/
theorem stopped_writeValue {value : Attr} {depth : Nat} (hlegible : value.isLegible depth = true)
    (level : Nat) : (writeValue level value).stopped = stopOf value.isStorable := by
  cases value with
  | null | bool | real | text => rfl
  | int value =>
    rw [Attr.isLegible, Bool.and_eq_true] at hlegible
    have hshort : isShortInteger value = true := hlegible.2
    rw [writeValue, writeSimple, writeInteger, if_pos hshort, Attr.isStorable, hshort]
    · rfl
    all_goals nofun
  | scalar value =>
    rcases plain_cases value with ⟨truth, hplain⟩ | ⟨integer, hplain, -⟩ | ⟨word, hplain⟩ <;>
      simp [writeValue, writeSimple, Attr.isStorable, hplain, stopOf, notWritten]
  | list items | tuple items =>
    rw [Attr.isLegible, Bool.and_eq_true] at hlegible
    rw [writeValue, encloseItems_of_areLegible hlegible.2]
    exact stopped_enclose.trans (firstStop_writeItems hlegible.2 (level + 1))
  | record fields =>
    rw [Attr.isLegible, Bool.and_eq_true] at hlegible
    exact stopped_enclose.trans (firstStop_writeFields hlegible.2 (level + 1))

theorem firstStop_writeItems {items : List Attr} {depth : Nat}
    (hlegible : Attr.areLegible depth items = true) (level : Nat) :
    firstStop (writeItems level items) = stopOf (Attr.areStorable items) := by
  cases items with
  | nil => rfl
  | cons item rest =>
    rw [Attr.areLegible, Bool.and_eq_true] at hlegible
    rw [writeItems, firstStop_cons, stopped_writeValue hlegible.1, firstStop_writeItems hlegible.2,
      Attr.areStorable]
    cases item.isStorable <;> rfl

theorem firstStop_writeFields {fields : List (String × Attr)} {depth : Nat}
    (hlegible : Attr.haveLegible depth fields = true) (level : Nat) :
    firstStop (writeFields level fields) = stopOf (Attr.haveStorable fields) := by
  cases fields with
  | nil => rfl
  | cons field rest =>
    rw [Attr.haveLegible, Bool.and_eq_true] at hlegible
    rw [writeFields, firstStop_cons, stopped_andThen_eq, Option.none_or,
      stopped_writeValue hlegible.1, firstStop_writeFields hlegible.2, Attr.haveStorable]
    cases field.2.isStorable <;> rfl

end

theorem writeFields_append (fields extra : List (String × Attr)) (level : Nat) :
    writeFields level (fields ++ extra) = writeFields level fields ++ writeFields level extra := by
  induction fields with
  | nil => rfl
  | cons field rest ih =>
    rw [List.cons_append, writeFields, ih, writeFields, List.cons_append]

/-- Fields after one that cannot be written do not count. -/
theorem writeDocument_append {fields : List (String × Attr)} {depth : Nat}
    (hlegible : Attr.haveLegible depth fields = true) (hstop : Attr.haveStorable fields = false)
    (extra : List (String × Attr)) :
    writeDocument (.record (fields ++ extra)) = writeDocument (.record fields) := by
  have hfirst : (firstStop (writeFields 1 fields)).isSome = true := by
    rw [firstStop_writeFields hlegible, hstop]
    rfl
  have hsame := firstStop_append_of_stopped hfirst (writeFields 1 extra)
  show enclose 0 _ _ (writeFields 1 (fields ++ extra)) = enclose 0 _ _ (writeFields 1 fields)
  rw [writeFields_append, enclose_cut (hsame ▸ hfirst), enclose_cut hfirst, hsame,
    cutLines_append hfirst]

/-- A number is written as the one that a document gives back. -/
theorem numeral_withPlainNaN (word : Word .float64) :
    numeral (Word.ofNumber .float64 word.toNumber).toNumber = numeral word.toNumber := by
  by_cases hnumber : word.toNumber = .nan
  · rw [hnumber]
    rfl
  · rw [Word.ofNumber_toNumber hnumber]

/-- What a document gives back for a value is formed where the value is. -/
theorem isFormed_stored {value : Attr} : isFormed value.stored = isFormed value := by
  cases value with
  | null | bool | int | real | text | list | tuple | record => rfl
  | scalar value =>
    rcases plain_cases value with ⟨truth, hplain⟩ | ⟨integer, hplain, hdigits⟩ | ⟨word, hplain⟩
    · simp [Attr.stored, Attr.withPlainNaN, hplain, isFormed]
    · simpa [Attr.stored, Attr.withPlainNaN, hplain, isFormed, isShortInteger] using hdigits
    · simp [Attr.stored, Attr.withPlainNaN, hplain, isFormed]

/-- What a document gives back for items is enclosed as the items are. -/
theorem encloseItems_stored (level : Nat) (items : List Attr) (parts : List Written) :
    encloseItems level (Attr.storedItems items) parts = encloseItems level items parts := by
  have hformed : (Attr.storedItems items).takeWhile isFormed =
      (items.takeWhile isFormed).map Attr.stored := by
    rw [Attr.storedItems_eq_map, List.takeWhile_map]
    exact congrArg (fun p ↦ (items.takeWhile p).map Attr.stored) (funext fun _ ↦ isFormed_stored)
  rw [encloseItems, hformed, Attr.storedItems_eq_map, List.length_map, List.length_map]
  rfl

mutual

/-- What a document gives back for a value is written as the value is. -/
theorem writeValue_stored (value : Attr) (level : Nat) (hstorable : value.isStorable = true) :
    writeValue level value.stored = writeValue level value := by
  cases value with
  | null | bool | int | text => rfl
  | real word => exact congrArg (Written.mk · none) (numeral_withPlainNaN word)
  | scalar value =>
    rcases plain_cases value with ⟨truth, hplain⟩ | ⟨integer, hplain, hdigits⟩ | ⟨word, hplain⟩
    · simp [Attr.isStorable, hplain] at hstorable
    · simp [Attr.stored, Attr.withPlainNaN, writeValue, writeSimple, writeInteger, isShortInteger,
        hplain, hdigits]
    · simp [Attr.stored, Attr.withPlainNaN, writeValue, writeSimple, hplain, numeral_withPlainNaN]
  | list items | tuple items =>
    rw [Attr.stored, writeValue, writeValue, writeItems_storedItems items (level + 1) hstorable,
      encloseItems_stored]
  | record fields =>
    rw [Attr.stored, writeValue, writeValue, writeFields_storedFields fields (level + 1) hstorable]

theorem writeItems_storedItems (items : List Attr) (level : Nat)
    (hstorable : Attr.areStorable items = true) :
    writeItems level (Attr.storedItems items) = writeItems level items := by
  cases items with
  | nil => rfl
  | cons item rest =>
    rw [Attr.areStorable, Bool.and_eq_true] at hstorable
    rw [Attr.storedItems, writeItems, writeItems, writeValue_stored item level hstorable.1,
      writeItems_storedItems rest level hstorable.2]

theorem writeFields_storedFields (fields : List (String × Attr)) (level : Nat)
    (hstorable : Attr.haveStorable fields = true) :
    writeFields level (Attr.storedFields fields) = writeFields level fields := by
  cases fields with
  | nil => rfl
  | cons field rest =>
    rw [Attr.haveStorable, Bool.and_eq_true] at hstorable
    rw [Attr.storedFields, writeFields, writeFields, writeValue_stored field.2 level hstorable.1,
      writeFields_storedFields rest level hstorable.2]

end

/-- Items that are enclosed to the end are all formed, and none of them stops the writer. -/
theorem firstStop_of_encloseItems {level : Nat} {items : List Attr} {parts : List Written}
    (hwritten : (encloseItems level items parts).stopped = none) : firstStop parts = none := by
  dsimp only [encloseItems] at hwritten
  split_ifs at hwritten with hformed
  · exact stopped_enclose.symm.trans hwritten
  · rw [stopped_andThen_eq, Option.or_eq_none_iff] at hwritten
    exact nomatch hwritten.2

mutual

/-- A value that is written to the end can be written. -/
theorem isStorable_of_stopped (value : Attr) (level : Nat)
    (hwritten : (writeValue level value).stopped = none) : value.isStorable = true := by
  cases value with
  | null | bool | real | text => rfl
  | int value =>
    rw [writeValue, writeSimple, writeInteger] at hwritten
    · split_ifs at hwritten with hshort
      exact hshort
    all_goals nofun
  | scalar value =>
    rcases plain_cases value with ⟨truth, hplain⟩ | ⟨integer, hplain, -⟩ | ⟨word, hplain⟩
    · simp [writeValue, writeSimple, hplain] at hwritten
    · simp [Attr.isStorable, hplain]
    · simp [Attr.isStorable, hplain]
  | list items | tuple items =>
    exact areStorable_of_firstStop items (level + 1) (firstStop_of_encloseItems hwritten)
  | record fields =>
    exact haveStorable_of_firstStop fields (level + 1) (stopped_enclose.symm.trans hwritten)

theorem areStorable_of_firstStop (items : List Attr) (level : Nat)
    (hwritten : firstStop (writeItems level items) = none) : Attr.areStorable items = true := by
  cases items with
  | nil => rfl
  | cons item rest =>
    rw [writeItems, firstStop_cons, Option.or_eq_none_iff] at hwritten
    rw [Attr.areStorable, isStorable_of_stopped item level hwritten.1,
      areStorable_of_firstStop rest level hwritten.2]
    rfl

theorem haveStorable_of_firstStop (fields : List (String × Attr)) (level : Nat)
    (hwritten : firstStop (writeFields level fields) = none) :
    Attr.haveStorable fields = true := by
  cases fields with
  | nil => rfl
  | cons field rest =>
    rw [writeFields, firstStop_cons, stopped_andThen_eq, Option.none_or, Option.or_eq_none_iff]
      at hwritten
    rw [Attr.haveStorable, isStorable_of_stopped field.2 level hwritten.1,
      haveStorable_of_firstStop rest level hwritten.2]
    rfl

end

end Storable

/-! ### Reading what is cut short -/

section Reading

/-- Whether a text begins with no space, and not as the end of a list. -/
def Begins (text : List Char) : Prop := ∀ c ∈ text.head?, isSpace c = false ∧ c ≠ ']'

theorem Begins.skipSpaces_eq {text : List Char} (hbegins : Begins text) :
    skipSpaces text = text := by
  cases text with
  | nil => rfl
  | cons c rest => exact skipSpaces_of_not_space (hbegins c rfl).1 rest

theorem begins_cons {c : Char} (hspace : isSpace c = false) (hend : c ≠ ']') (rest : List Char) :
    Begins (c :: rest) := by
  rintro _ ⟨⟩
  exact ⟨hspace, hend⟩

/-- What is written for a collection whose parts stop the writer begins with its bracket. -/
theorem text_enclose_cut {level : Nat} {opening closing : Char} {parts : List Written}
    (hstop : firstStop parts = stopOf false) :
    (enclose level opening closing parts).text =
      opening :: (lineBreak (level + 1) ++ cutLines (level + 1) parts) := by
  rw [enclose_cut (by rw [hstop]; rfl)]

theorem firstStop_of_not_areStorable {items : List Attr} {depth : Nat}
    (hlegible : Attr.areLegible depth items = true) (hstop : Attr.areStorable items = false)
    (level : Nat) : firstStop (writeItems level items) = stopOf false := by
  rw [firstStop_writeItems hlegible, hstop]

theorem firstStop_of_not_haveStorable {fields : List (String × Attr)} {depth : Nat}
    (hlegible : Attr.haveLegible depth fields = true) (hstop : Attr.haveStorable fields = false)
    (level : Nat) : firstStop (writeFields level fields) = stopOf false := by
  rw [firstStop_writeFields hlegible, hstop]

theorem text_writeValue_scalar {value : Scalar} (hstop : (Attr.scalar value).isStorable = false)
    (level : Nat) : (writeValue level (.scalar value)).text = [] := by
  rcases plain_cases value with ⟨truth, hplain⟩ | ⟨integer, hplain, -⟩ | ⟨word, hplain⟩ <;>
    simp [writeValue, writeSimple, Attr.isStorable, hplain] at hstop ⊢

/-- What is written for a value that can be written begins as a value. -/
theorem begins_of_isStorable {value : Attr} {depth : Nat} (hlegible : value.isLegible depth = true)
    (hstorable : value.isStorable = true) (level : Nat) (rest : List Char) :
    Begins ((writeValue level value).text ++ rest) := by
  have hstopped : (writeValue level value).stopped = none := by
    rw [stopped_writeValue hlegible, hstorable]
    rfl
  have hread := readValue_writeValue value level depth _ [] hstopped hlegible
    (by simp [EndsNumber]) (Nat.le_refl _)
  rw [List.append_nil] at hread
  obtain ⟨c, more, htext, hspace, hend⟩ := exists_eq_cons_of_readValue hread
  rw [htext]
  exact begins_cons hspace hend _

/-- What is written for a value that stops the writer begins as a value, if it begins at all. -/
theorem begins_of_not_isStorable {value : Attr} {depth : Nat}
    (hlegible : value.isLegible depth = true) (hstop : value.isStorable = false) (level : Nat) :
    Begins (writeValue level value).text := by
  cases value with
  | null | bool | real | text => cases hstop
  | int value => exact absurd hstop (Attr.isStorable_int hlegible)
  | scalar value =>
    rw [text_writeValue_scalar hstop]
    nofun
  | list items | tuple items =>
    rw [Attr.isLegible, Bool.and_eq_true] at hlegible
    rw [writeValue, encloseItems_of_areLegible hlegible.2,
      text_enclose_cut (firstStop_of_not_areStorable hlegible.2 hstop _)]
    exact begins_cons rfl (by decide) _
  | record fields =>
    rw [Attr.isLegible, Bool.and_eq_true] at hlegible
    rw [writeValue, text_enclose_cut (firstStop_of_not_haveStorable hlegible.2 hstop _)]
    exact begins_cons rfl (by decide) _

theorem cutLines_items_cons {item : Attr} {depth : Nat} (hlegible : item.isLegible depth = true)
    (rest : List Attr) (level : Nat) :
    cutLines level (writeItems level (item :: rest)) =
      if item.isStorable then
        (writeValue level item).text ++
          ',' :: (lineBreak level ++ cutLines level (writeItems level rest))
      else (writeValue level item).text := by
  rw [writeItems, cutLines, stopped_writeValue hlegible]
  cases item.isStorable <;> rfl

theorem cutLines_fields_cons (key : String) {value : Attr} {depth : Nat}
    (hlegible : value.isLegible depth = true) (rest : List (String × Attr)) (level : Nat) :
    cutLines level (writeFields level ((key, value) :: rest)) =
      quoted key ++ ':' :: ' ' :: (if value.isStorable then
        (writeValue level value).text ++
          ',' :: (lineBreak level ++ cutLines level (writeFields level rest))
      else (writeValue level value).text) := by
  rw [writeFields, cutLines, stopped_andThen_eq, Option.none_or, stopped_writeValue hlegible,
    text_andThen rfl]
  cases value.isStorable <;> simp [stopOf]

theorem begins_cutLines_items {items : List Attr} {depth : Nat}
    (hlegible : Attr.areLegible depth items = true) (level : Nat) :
    Begins (cutLines level (writeItems level items)) := by
  cases items with
  | nil => nofun
  | cons item rest =>
    simp only [Attr.areLegible, Bool.and_eq_true] at hlegible
    rw [cutLines_items_cons hlegible.1]
    cases hstorable : item.isStorable with
    | true => exact begins_of_isStorable hlegible.1 hstorable level _
    | false => exact begins_of_not_isStorable hlegible.1 hstorable level

theorem exists_cutLines_fields_eq {fields : List (String × Attr)} {depth : Nat}
    (hsome : fields ≠ []) (hlegible : Attr.haveLegible depth fields = true) (level : Nat) :
    ∃ rest, cutLines level (writeFields level fields) = '\x22' :: rest := by
  obtain ⟨⟨key, value⟩, others, rfl⟩ := List.exists_cons_of_ne_nil hsome
  rw [Attr.haveLegible, Bool.and_eq_true] at hlegible
  rw [cutLines_fields_cons key hlegible.1]
  exact ⟨_, rfl⟩

theorem readValue_nil {depth : Nat} (hdepth : depth ≤ nestingLimit) (fuel : Nat) :
    readValue depth fuel [] = .error .malformed := by
  cases fuel with
  | zero => rfl
  | succ fuel =>
    unfold readValue
    rw [if_neg (Nat.not_lt.mpr hdepth)]
    rfl

section Malformed

variable {depth fuel : Nat} {text : List Char}

/-- A list whose items are malformed is malformed. -/
theorem readValue_list_malformed (level : Nat) (hdepth : depth ≤ nestingLimit)
    (hbegins : Begins text) (hitems : readItems (depth + 1) fuel text = .error .malformed) :
    readValue depth (fuel + 1) ('[' :: (lineBreak level ++ text)) = .error .malformed := by
  simp only [readValue, skipSpaces_lineBreak, hbegins.skipSpaces_eq]
  rw [if_neg (Nat.not_lt.mpr hdepth)]
  split
  · exact absurd rfl (hbegins ']' rfl).2
  · rw [hitems]
    rfl

/-- A record whose fields are malformed is malformed. -/
theorem readValue_record_malformed (level : Nat) (hdepth : depth ≤ nestingLimit)
    (hbegins : ∃ rest, text = '\x22' :: rest)
    (hfields : readFields (depth + 1) fuel text = .error .malformed) :
    readValue depth (fuel + 1) ('\x7b' :: (lineBreak level ++ text)) = .error .malformed := by
  obtain ⟨rest, rfl⟩ := hbegins
  have hskip : skipSpaces ('\x22' :: rest) = '\x22' :: rest := skipSpaces_of_not_space rfl _
  simp only [readValue, skipSpaces_lineBreak, hskip]
  rw [if_neg (Nat.not_lt.mpr hdepth)]
  split
  · rename_i heq
    exact absurd (List.cons.inj heq).1 (by decide)
  · rw [hfields]
    rfl

/-- A field is malformed if its value is. -/
theorem readFields_value_malformed {key : String} (hbegins : Begins text)
    (hvalue : readValue depth fuel text = .error .malformed) :
    readFields depth (fuel + 1) (quoted key ++ ':' :: ' ' :: text) = .error .malformed := by
  rw [readFields_quoted key hbegins.skipSpaces_eq, hvalue]
  rfl

end Malformed

mutual

/-- What is written for a value that stops the writer is malformed. -/
theorem readValue_cut (value : Attr) (level depth fuel : Nat) (hstop : value.isStorable = false)
    (hlegible : value.isLegible depth = true)
    (hfuel : 2 * (writeValue level value).text.length + 1 ≤ fuel) :
    readValue depth fuel (writeValue level value).text = .error .malformed := by
  have hdepth := Attr.le_of_isLegible hlegible
  cases value with
  | null | bool | real | text => cases hstop
  | int value => exact absurd hstop (Attr.isStorable_int hlegible)
  | scalar value =>
    rw [text_writeValue_scalar hstop]
    exact readValue_nil hdepth fuel
  | list items | tuple items =>
    simp only [Attr.isLegible, Bool.and_eq_true] at hlegible
    have htext : (enclose level '[' ']' (writeItems (level + 1) items)).text = _ :=
      text_enclose_cut (firstStop_of_not_areStorable hlegible.2 hstop (level + 1))
    obtain ⟨fuel, rfl⟩ := Nat.exists_eq_succ_of_ne_zero (by omega : fuel ≠ 0)
    rw [writeValue, encloseItems_of_areLegible hlegible.2] at hfuel ⊢
    rw [htext] at hfuel ⊢
    simp only [lineBreak, List.length_cons, List.length_append] at hfuel
    exact readValue_list_malformed (level + 1) hdepth (begins_cutLines_items hlegible.2 (level + 1))
      (readItems_cut items (level + 1) (depth + 1) fuel hstop hlegible.2 (by omega))
  | record fields =>
    simp only [Attr.isLegible, Bool.and_eq_true] at hlegible
    have htext : (enclose level '\x7b' '\x7d' (writeFields (level + 1) fields)).text = _ :=
      text_enclose_cut (firstStop_of_not_haveStorable hlegible.2 hstop (level + 1))
    have hsome : fields ≠ [] := by
      rintro rfl
      cases hstop
    obtain ⟨fuel, rfl⟩ := Nat.exists_eq_succ_of_ne_zero (by omega : fuel ≠ 0)
    rw [writeValue] at hfuel ⊢
    rw [htext] at hfuel ⊢
    simp only [lineBreak, List.length_cons, List.length_append] at hfuel
    exact readValue_record_malformed (level + 1) hdepth
      (exists_cutLines_fields_eq hsome hlegible.2 (level + 1))
      (readFields_cut fields (level + 1) (depth + 1) fuel hstop hlegible.2 (by omega))

/-- What is written for items of which one stops the writer is malformed. -/
theorem readItems_cut (items : List Attr) (level depth fuel : Nat)
    (hstop : Attr.areStorable items = false) (hlegible : Attr.areLegible depth items = true)
    (hfuel : 2 * (cutLines level (writeItems level items)).length + 2 ≤ fuel) :
    readItems depth fuel (cutLines level (writeItems level items)) = .error .malformed := by
  obtain ⟨fuel, rfl⟩ := Nat.exists_eq_succ_of_ne_zero (by omega : fuel ≠ 0)
  cases items with
  | nil => cases hstop
  | cons item rest =>
    simp only [Attr.areLegible, Bool.and_eq_true] at hlegible
    rw [cutLines_items_cons hlegible.1] at hfuel ⊢
    cases hstorable : item.isStorable with
    | false =>
      rw [hstorable] at hfuel
      have hitem := readValue_cut item level depth fuel hstorable hlegible.1 (by
        simp only [Bool.false_eq_true, if_false] at hfuel
        omega)
      simp only [Bool.false_eq_true, if_false, readItems, hitem]
      rfl
    | true =>
      have hrest : Attr.areStorable rest = false := by
        rwa [Attr.areStorable, hstorable, Bool.true_and] at hstop
      rw [hstorable, if_pos rfl, List.length_append, List.length_cons, List.length_append] at hfuel
      have hitem := readValue_writeValue item level depth fuel
        (',' :: (lineBreak level ++ cutLines level (writeItems level rest)))
        (by rw [stopped_writeValue hlegible.1, hstorable]; rfl) hlegible.1 (endsNumber_comma _)
        (by omega)
      have hitems := readItems_cut rest level depth fuel hrest hlegible.2 (by omega)
      rw [if_pos rfl]
      rw [readItems_eq_bind level (begins_cutLines_items hlegible.2 level).skipSpaces_eq hitem,
        hitems]
      rfl

theorem readFields_cut (fields : List (String × Attr)) (level depth fuel : Nat)
    (hstop : Attr.haveStorable fields = false) (hlegible : Attr.haveLegible depth fields = true)
    (hfuel : 2 * (cutLines level (writeFields level fields)).length + 2 ≤ fuel) :
    readFields depth fuel (cutLines level (writeFields level fields)) = .error .malformed := by
  obtain ⟨fuel, rfl⟩ := Nat.exists_eq_succ_of_ne_zero (by omega : fuel ≠ 0)
  cases fields with
  | nil => cases hstop
  | cons field rest =>
    obtain ⟨key, value⟩ := field
    simp only [Attr.haveLegible, Bool.and_eq_true] at hlegible
    rw [cutLines_fields_cons key hlegible.1] at hfuel ⊢
    cases hstorable : value.isStorable with
    | false =>
      rw [hstorable, if_neg (by decide), List.length_append, List.length_cons, List.length_cons]
        at hfuel
      have hvalue := readValue_cut value level depth fuel hstorable hlegible.1 (by omega)
      rw [if_neg (by decide)]
      exact readFields_value_malformed (begins_of_not_isStorable hlegible.1 hstorable level) hvalue
    | true =>
      have hrest : Attr.haveStorable rest = false := by
        rwa [Attr.haveStorable, hstorable, Bool.true_and] at hstop
      have hsome : rest ≠ [] := by
        rintro rfl
        cases hrest
      rw [hstorable, if_pos rfl, List.length_append, List.length_cons, List.length_cons,
        List.length_append, List.length_cons, List.length_append] at hfuel
      have hvalue := readValue_writeValue value level depth fuel
        (',' :: (lineBreak level ++ cutLines level (writeFields level rest)))
        (by rw [stopped_writeValue hlegible.1, hstorable]; rfl) hlegible.1 (endsNumber_comma _)
        (by omega)
      have hfields := readFields_cut rest level depth fuel hrest hlegible.2 (by omega)
      rw [if_pos rfl]
      obtain ⟨others, hothers⟩ := exists_cutLines_fields_eq hsome hlegible.2 level
      rw [hothers] at hvalue hfields ⊢
      rw [readFields_eq_bind level hvalue, hfields]
      rfl

end

/-- A document that the writer did not finish is malformed. -/
theorem readDocument_cut {value : Attr} (hstop : value.isStorable = false)
    (hlegible : value.isLegible 0 = true) :
    readDocument (String.ofList (writeDocument value).text) = .error .malformed := by
  have hread := readValue_cut value 0 0 (2 * (writeDocument value).text.length + 2) hstop hlegible
    (Nat.le_succ _)
  have hskip : skipSpaces (writeDocument value).text = (writeDocument value).text :=
    (begins_of_not_isStorable hlegible hstop 0).skipSpaces_eq
  simp only [readDocument, String.toList_ofList, hskip]
  rw [writeDocument] at hread ⊢
  rw [hread]
  rfl

end Reading

end Document

end Handover
