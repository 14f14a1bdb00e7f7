import Handover.Proofs.Element
import Handover.Proofs.Literal.Grammar
import Handover.Proofs.Number.Widening
import Handover.Proofs.OrderedMap

/-!
# Evaluating literals

What is written for a value that is built of plain ones (`Attr.isPlain`) is a literal but for
numbers that are not finite, which are written as names. Surroundings in which names stand for
values make something of it or not (`Attr.evaluated`), and that is what evaluating the literal of
the value there gives (`evaluate_literal`).

The reader takes a step for every value and for every item, of which a text holds no more than twice
its length, and what follows a value begins with a mark that does not go on with it (`Closes`).
-/

set_option autoImplicit false
set_option relaxedAutoImplicit false

namespace Handover

namespace Attr

/-! ### Values built from plain ones -/

section Plain

mutual

/-- Whether a value is built without scalars that name their element type and without tuples of a
class, and no record in it has a key twice. -/
def isPlain : Attr → Bool
  | scalar _ => false
  | list items => arePlain items
  | tuple items form => form.isNone && arePlain items
  | record fields => decide (fields.map Prod.fst).Nodup && havePlain fields
  | _ => true

/-- Whether some items are plain. -/
def arePlain : List Attr → Bool
  | [] => true
  | item :: rest => item.isPlain && arePlain rest

/-- Whether the values of some fields are plain. -/
def havePlain : List (String × Attr) → Bool
  | [] => true
  | (_, value) :: rest => value.isPlain && havePlain rest

end

theorem unwrap_of_isPlain {value : Attr} (hplain : value.isPlain = true) :
    value.unwrap = value := by
  cases value with
  | scalar value => cases hplain
  | null | bool | int | real | text | list | tuple | record => rfl

theorem isPlain_tuple {items : List Attr} {form : Option TupleClass} :
    (tuple items form).isPlain = true ↔ form = none ∧ arePlain items = true := by
  rw [isPlain, Bool.and_eq_true, Option.isNone_iff_eq_none]

end Plain

/-! ### What is made of a value -/

section Evaluated

variable (names : String → Option Attr)

mutual

/-- What surroundings in which names stand for values make of what is written for a value. A number
that is not finite is written as a name. -/
def evaluated : Attr → Option Attr
  | real value =>
    match value.toNumber with
    | .nan => names "nan"
    | .infinite negative =>
      if negative then (names "inf").bind (Literal.signed? true) else names "inf"
    | .finite _ _ _ => some (real value)
  | list items => (evaluatedItems items).map list
  | tuple items form => (evaluatedItems items).map (tuple · form)
  | record fields => (evaluatedFields fields).map record
  | value => some value

/-- What surroundings make of some items. -/
def evaluatedItems : List Attr → Option (List Attr)
  | [] => some []
  | item :: rest => item.evaluated.bind fun found ↦ (evaluatedItems rest).map (found :: ·)

/-- What surroundings make of the values of some fields. -/
def evaluatedFields : List (String × Attr) → Option (List (String × Attr))
  | [] => some []
  | (key, value) :: rest =>
    value.evaluated.bind fun found ↦ (evaluatedFields rest).map ((key, found) :: ·)

end

theorem keys_of_evaluatedFields {fields found : List (String × Attr)}
    (hfound : evaluatedFields names fields = some found) :
    found.map Prod.fst = fields.map Prod.fst := by
  induction fields generalizing found with
  | nil =>
    obtain rfl := Option.some.inj hfound
    rfl
  | cons field rest ih =>
    rw [evaluatedFields, Option.bind_eq_some_iff] at hfound
    obtain ⟨value, -, hfound⟩ := hfound
    obtain ⟨others, hothers, rfl⟩ := Option.map_eq_some_iff.mp hfound
    rw [List.map_cons, List.map_cons, ih hothers]

end Evaluated

end Attr

namespace Literal

variable {names : String → Option Attr} {rest : List Char}

/-! ### Numbers that need not be finite -/

section Reals

/-- The negative of the word of a number is the word of the negative number. -/
theorem negate_ofNumber {mantissa : Nat} {exponent : Int}
    (hholds : BinaryFormat.double.Holds mantissa exponent) :
    Word.negate (Word.ofNumber .float64 (.finite false mantissa exponent)) =
      Word.ofNumber .float64 (.finite true mantissa exponent) := by
  have hword : (Word.ofNumber .float64 (.finite false mantissa exponent)).toNat =
      BinaryFormat.double.encode (.finite false mantissa exponent) :=
    Nat.mod_eq_of_lt (BinaryFormat.encode_lt .double (by simp))
  have hnumber : (Word.ofNumber .float64 (.finite false mantissa exponent)).toNumber =
      .finite false mantissa exponent :=
    (congrArg BinaryFormat.double.decode hword).trans (hholds.decode_encode false)
  show Word.ofNumber .float64 (BinaryNumber.negate _) = _
  rw [hnumber]
  rfl

/-- A number is read as surroundings make of it. -/
theorem readSimple?_real (word : Word .float64) (hrest : Closes rest) :
    readSimple? names ((Attr.real word).literalCharacters ++ rest) =
      ((Attr.real word).evaluated names).map fun value ↦ (value, rest) := by
  rw [Attr.literalCharacters, Attr.evaluated]
  cases hnumber : word.toNumber with
  | nan =>
    have hname : readUnsigned? names ("nan".toList ++ rest) = _ :=
      readUnsigned?_name rfl rfl hrest
    simpa [shortestNumeral, readSimple?, constant?] using hname
  | infinite negative =>
    have hname : readUnsigned? names ("inf".toList ++ rest) = _ :=
      readUnsigned?_name rfl rfl hrest
    cases negative with
    | false => simpa [shortestNumeral, readSimple?, constant?] using hname
    | true =>
      have hminus : readSimple? names ('-' :: 'i' :: 'n' :: 'f' :: rest) = _ :=
        readSimple?_minus rfl _
      have hsame : 'i' :: 'n' :: 'f' :: rest = "inf".toList ++ rest := rfl
      rw [hsame, hname] at hminus
      refine hminus.trans ?_
      cases names "inf" <;> simp [constant?]
  | finite negative mantissa exponent =>
    obtain ⟨hholds, -⟩ := BinaryFormat.decode_eq_finite word.isLt hnumber
    obtain ⟨written, hmagnitude, hword⟩ := exists_numeral_of_holds hholds
    obtain ⟨c, text, htext, hc⟩ := written.exists_text_eq_cons
    have hread := readNumber?_numeral written hrest
    rw [htext, List.cons_append, hword] at hread
    have hcharacters : (shortestNumeral .double (.finite negative mantissa exponent)).toList ++
        rest = if negative then '-' :: c :: (text ++ rest) else c :: (text ++ rest) := by
      rw [← List.cons_append, ← htext]
      simp only [shortestNumeral, String.toList_ofList, hmagnitude]
      split_ifs <;> rfl
    rw [hcharacters, readSimple?_number hc hread]
    have hnan : word.toNumber ≠ .nan := by simp [hnumber]
    have hplain := Word.ofNumber_toNumber hnan
    rw [hnumber] at hplain
    cases negative with
    | false => exact congrArg (fun word ↦ some (Attr.real word, rest)) hplain
    | true =>
      have hnegated := (negate_ofNumber hholds).trans hplain
      exact congrArg (fun word ↦ some (Attr.real word, rest)) hnegated

end Reals

/-! ### Collections -/

section Collections

variable {fuel : Nat} {closing : Char} {text tail : List Char} {found : Option Attr}
  {others : Option (List Attr)} {otherFields : Option (List (String × Attr))}

theorem closes_closing (hclosing : closing ∈ [')', ']', '\x7d']) (rest : List Char) :
    Closes (closing :: rest) :=
  closes_cons (List.mem_of_mem_drop (l := [',', ':', ')', ']', '\x7d']) (i := 2) hclosing) rest

theorem readItems?_nil :
    readItems? names closing (fuel + 1) (closing :: rest) = some ([], rest) := by
  simp [readItems?]

/-- The last item is read up to the closing bracket. -/
theorem readItems?_last (hclosing : closing ∈ [')', ']', '\x7d']) (htext : Begins text)
    (hitem : readValue? names fuel (text ++ closing :: rest) =
      found.map fun value ↦ (value, closing :: rest)) :
    readItems? names closing (fuel + 1) (text ++ closing :: rest) =
      (found.bind fun value ↦ some [value]).map fun items ↦ (items, rest) := by
  rw [readItems?, if_neg ((htext.append _).head?_ne hclosing), hitem]
  cases found with
  | none => rfl
  | some value =>
    have hend := skipSpaces_of_closes (closes_closing hclosing rest)
    -- No closing bracket is the comma, so the reader stops after this item.
    have hcomma : closing ≠ ',' := by
      rintro rfl
      exact absurd hclosing (by decide)
    simp [hend]

/-- An item is read up to the comma, and the other items after it. -/
theorem readItems?_cons (hclosing : closing ∈ [')', ']', '\x7d']) (htext : Begins text)
    (hitem : readValue? names fuel (text ++ ',' :: tail) =
      found.map fun value ↦ (value, ',' :: tail))
    (hitems : readItems? names closing fuel (skipSpaces tail) =
      others.map fun items ↦ (items, rest)) :
    readItems? names closing (fuel + 1) (text ++ ',' :: tail) =
      (found.bind fun value ↦ others.map (value :: ·)).map fun items ↦ (items, rest) := by
  have hcomma : skipSpaces (',' :: tail) = ',' :: tail := skipSpaces_of_not_space rfl tail
  rw [readItems?, if_neg ((htext.append _).head?_ne hclosing), hitem]
  cases found with
  | none => rfl
  | some value =>
    simp [hcomma, hitems]
    cases others <;> rfl

/-- A tuple is read from its first item with the comma after it, and the other items. -/
theorem readValue?_tuple (htext : Begins text)
    (hitem : readValue? names fuel (text ++ ',' :: tail) =
      found.map fun value ↦ (value, ',' :: tail))
    (hitems : readItems? names ')' fuel (skipSpaces tail) =
      others.map fun items ↦ (items, rest)) :
    readValue? names (fuel + 1) ('(' :: (text ++ ',' :: tail)) =
      ((found.bind fun value ↦ others.map (value :: ·)).map Attr.tuple).map
        fun value ↦ (value, rest) := by
  have hcomma : skipSpaces (',' :: tail) = ',' :: tail := skipSpaces_of_not_space rfl tail
  have hstart : skipSpaces (text ++ ',' :: tail) = text ++ ',' :: tail :=
    (htext.append _).skipSpaces
  -- A value does not begin as the end of the tuple, so the reader looks for the first item.
  have hopen : ∀ after, text ++ ',' :: tail ≠ ')' :: after := by
    intro after heq
    exact (htext.append (',' :: tail)).head?_ne (c := ')') (by decide) (by rw [heq]; rfl)
  simp only [readValue?, hstart, hitem]
  cases found with
  | none => rfl
  | some value =>
    simp [hcomma, hitems]
    cases others <;> rfl

theorem readValue?_empty_tuple :
    readValue? names (fuel + 1) ('(' :: ')' :: rest) = some (.tuple [], rest) := by
  simp [readValue?, skipSpaces_of_not_space (show isSpace ')' = false from rfl)]

/-- A list is read from its items. -/
theorem readValue?_list
    (hitems : readItems? names ']' fuel (skipSpaces tail) =
      others.map fun items ↦ (items, rest)) :
    readValue? names (fuel + 1) ('[' :: tail) =
      (others.map Attr.list).map fun value ↦ (value, rest) := by
  rw [readValue?, hitems]
  cases others <;> rfl

/-- The key of a field is read with the colon after it, up to the value. -/
theorem readTexts?_key (key : String) (htext : Begins text) :
    ((Text.quote key).toList ++ ':' :: ' ' :: text).head? ≠ some '\x7d' ∧
      (∀ fuel, readTexts? (fuel + 1) ((Text.quote key).toList ++ ':' :: ' ' :: text) =
        some (key.toList, ':' :: ' ' :: text)) ∧
      skipSpaces (':' :: ' ' :: text) = ':' :: ' ' :: text ∧ skipSpaces (' ' :: text) = text :=
  ⟨((begins_quote key).append _).head?_ne (by decide),
    fun fuel ↦ readTexts?_quote key fuel (closes_cons (by decide) _),
    skipSpaces_of_not_space rfl _, htext.skipSpaces⟩

theorem readFields?_nil :
    readFields? names (fuel + 1) (skipSpaces ('\x7d' :: rest)) = some ([], rest) := by
  rw [skipSpaces_of_not_space rfl]
  simp [readFields?]

/-- The last field is read up to the closing brace. -/
theorem readFields?_last (key : String) (htext : Begins text)
    (hvalue : readValue? names fuel (text ++ '\x7d' :: rest) =
      found.map fun value ↦ (value, '\x7d' :: rest)) :
    readFields? names (fuel + 1)
        ((Text.quote key).toList ++ ':' :: ' ' :: (text ++ '\x7d' :: rest)) =
      (found.bind fun value ↦ some [(key, value)]).map fun fields ↦ (fields, rest) := by
  obtain ⟨hopen, hkey, hcolon, hskip⟩ := readTexts?_key key (htext.append ('\x7d' :: rest))
  have hend : skipSpaces ('\x7d' :: rest) = '\x7d' :: rest := skipSpaces_of_not_space rfl rest
  rw [readFields?, if_neg hopen, hkey]
  simp only [Option.bind_eq_bind, Option.bind_some, hcolon, hskip, hvalue]
  cases found with
  | none => rfl
  | some value => simp [hend]

/-- A field is read up to the comma, and the other fields after it. -/
theorem readFields?_cons (key : String) (htext : Begins text)
    (hvalue : readValue? names fuel (text ++ ',' :: tail) =
      found.map fun value ↦ (value, ',' :: tail))
    (hfields : readFields? names fuel (skipSpaces tail) =
      otherFields.map fun fields ↦ (fields, rest)) :
    readFields? names (fuel + 1) ((Text.quote key).toList ++ ':' :: ' ' :: (text ++ ',' :: tail)) =
      (found.bind fun value ↦ otherFields.map ((key, value) :: ·)).map
        fun fields ↦ (fields, rest) := by
  obtain ⟨hopen, hkey, hcolon, hskip⟩ := readTexts?_key key (htext.append (',' :: tail))
  have hcomma : skipSpaces (',' :: tail) = ',' :: tail := skipSpaces_of_not_space rfl tail
  rw [readFields?, if_neg hopen, hkey]
  simp only [Option.bind_eq_bind, Option.bind_some, hcolon, hskip, hvalue]
  cases found with
  | none => rfl
  | some value =>
    simp [hcomma, hfields]
    cases otherFields <;> rfl

/-- A record is read from its fields. -/
theorem readValue?_record
    (hfields : readFields? names fuel (skipSpaces tail) =
      otherFields.map fun fields ↦ (fields, rest))
    (hkeys : ∀ fields ∈ otherFields, (fields.map Prod.fst).Nodup) :
    readValue? names (fuel + 1) ('\x7b' :: tail) =
      (otherFields.map Attr.record).map fun value ↦ (value, rest) := by
  rw [readValue?, hfields]
  cases otherFields with
  | none => rfl
  | some fields => simp [OrderedMap.entries_ofList (hkeys fields rfl)]

end Collections

/-! ### Values -/

section Values

/-- What is written for a value begins as that. -/
theorem begins_literalCharacters {value : Attr} (hplain : value.isPlain = true) :
    Begins value.literalCharacters := by
  cases value with
  | null => exact ⟨'N', _, rfl, by decide⟩
  | bool truth => cases truth <;> exact ⟨_, _, rfl, by decide⟩
  | int value => exact (beginsSimple_integerNumeral value).begins
  | real word => exact (beginsSimple_real word).begins
  | text content => exact begins_quote content
  | scalar value => cases hplain
  | list items => exact ⟨'[', _, rfl, by decide⟩
  | tuple items =>
    obtain ⟨rfl, -⟩ := Attr.isPlain_tuple.mp hplain
    rw [Attr.literalCharacters]
    unfold tupleCharacters
    split <;> exact ⟨'(', _, rfl, by decide⟩
  | record fields => exact ⟨'\x7b', _, rfl, by decide⟩

theorem commaSeparated_cons_cons (first second : List Char) (others : List (List Char)) :
    commaSeparated (first :: second :: others) =
      first ++ ',' :: ' ' :: commaSeparated (second :: others) := rfl

/-- A tuple is written with a comma after its first item and then the other items, if there are
any. -/
theorem exists_tupleCharacters_cons (first : List Char) (others : List (List Char))
    (rest : List Char) :
    ∃ tail, tupleCharacters (first :: others) ++ rest = '(' :: (first ++ ',' :: tail) ∧
      skipSpaces tail = skipSpaces (commaSeparated others ++ ')' :: rest) ∧
      first.length + (commaSeparated others).length + 3 ≤
        (tupleCharacters (first :: others)).length := by
  cases others with
  | nil =>
    refine ⟨')' :: rest, ?_, rfl, ?_⟩
    · simp [tupleCharacters]
    · simp [tupleCharacters, commaSeparated]
  | cons second others =>
    refine ⟨' ' :: (commaSeparated (second :: others) ++ ')' :: rest), ?_, rfl, ?_⟩
    · simp [tupleCharacters, commaSeparated_cons_cons]
    · simp only [tupleCharacters, commaSeparated_cons_cons, List.length_append, List.length_cons]
      omega

mutual

/-- What is written for a value is read as surroundings make of the value. -/
theorem readValue?_literalCharacters (value : Attr) (fuel : Nat) (rest : List Char)
    (hplain : value.isPlain = true) (hshort : value.hasShortIntegers = true) (hrest : Closes rest)
    (hfuel : 2 * value.literalCharacters.length + 1 ≤ fuel) :
    readValue? names fuel (value.literalCharacters ++ rest) =
      (value.evaluated names).map fun found ↦ (found, rest) := by
  obtain ⟨fuel, rfl⟩ := Nat.exists_eq_succ_of_ne_zero (by omega : fuel ≠ 0)
  cases value with
  | null => exact readValue?_constant rfl fuel hrest
  | bool truth => cases truth <;> exact readValue?_constant rfl fuel hrest
  | int value =>
    rw [Attr.literalCharacters,
      readValue?_of_beginsSimple ((beginsSimple_integerNumeral value).append rest),
      readSimple?_integerNumeral hshort hrest]
    rfl
  | real word =>
    rw [readValue?_of_beginsSimple ((beginsSimple_real word).append rest),
      readSimple?_real word hrest]
  | text content => exact readValue?_quote content fuel hrest
  | scalar value => cases hplain
  | list items =>
    simp only [Attr.literalCharacters, listCharacters, List.length_append, List.length_cons]
      at hfuel
    have hitems := readItems?_itemLiterals items ']' fuel rest hplain hshort (by decide) (by omega)
    simpa [Attr.literalCharacters, listCharacters, Attr.evaluated] using readValue?_list hitems
  | tuple items form =>
    obtain ⟨rfl, hitems⟩ := Attr.isPlain_tuple.mp hplain
    cases items with
    | nil => exact readValue?_empty_tuple
    | cons item others =>
      rw [Attr.arePlain, Bool.and_eq_true] at hitems
      simp only [Attr.hasShortIntegers, Attr.haveShortIntegers, Bool.and_eq_true] at hshort
      rw [Attr.literalCharacters, Attr.itemLiterals] at hfuel ⊢
      obtain ⟨tail, htext, htail, hlength⟩ :=
        exists_tupleCharacters_cons item.literalCharacters (Attr.itemLiterals others) rest
      have hitem := readValue?_literalCharacters item fuel (',' :: tail) hitems.1 hshort.1
        (closes_cons (by decide) _) (by omega)
      have hothers := readItems?_itemLiterals others ')' fuel rest hitems.2 hshort.2 (by decide)
        (by omega)
      rw [← htail] at hothers
      rw [htext, readValue?_tuple (begins_literalCharacters hitems.1) hitem hothers]
      rfl
  | record fields =>
    simp only [Attr.isPlain, Bool.and_eq_true, decide_eq_true_eq] at hplain
    simp only [Attr.literalCharacters, List.length_append, List.length_cons] at hfuel
    have hfields := readFields?_fieldLiterals fields fuel rest hplain.2 hshort (by omega)
    have hkeys : ∀ found ∈ Attr.evaluatedFields names fields, (found.map Prod.fst).Nodup := by
      intro found hfound
      rw [Attr.keys_of_evaluatedFields names hfound]
      exact hplain.1
    simpa [Attr.literalCharacters, Attr.evaluated] using readValue?_record hfields hkeys

/-- What is written for the items of a collection is read up to the closing bracket. -/
theorem readItems?_itemLiterals (items : List Attr) (closing : Char) (fuel : Nat) (rest : List Char)
    (hplain : Attr.arePlain items = true) (hshort : Attr.haveShortIntegers items = true)
    (hclosing : closing ∈ [')', ']', '\x7d'])
    (hfuel : 2 * (commaSeparated (Attr.itemLiterals items)).length + 2 ≤ fuel) :
    readItems? names closing fuel
        (skipSpaces (commaSeparated (Attr.itemLiterals items) ++ closing :: rest)) =
      (Attr.evaluatedItems names items).map fun found ↦ (found, rest) := by
  obtain ⟨fuel, rfl⟩ := Nat.exists_eq_succ_of_ne_zero (by omega : fuel ≠ 0)
  cases items with
  | nil =>
    have hskip := skipSpaces_of_closes (closes_closing hclosing rest)
    rw [Attr.itemLiterals, commaSeparated, List.nil_append, hskip]
    exact readItems?_nil
  | cons item others =>
    simp only [Attr.arePlain, Bool.and_eq_true] at hplain
    simp only [Attr.haveShortIntegers, Bool.and_eq_true] at hshort
    have hbegins := begins_literalCharacters hplain.1
    cases others with
    | nil =>
      simp only [Attr.itemLiterals, commaSeparated] at hfuel ⊢
      have hitem := readValue?_literalCharacters item fuel (closing :: rest) hplain.1 hshort.1
        (closes_closing hclosing rest) (by omega)
      rw [(hbegins.append _).skipSpaces, readItems?_last hclosing hbegins hitem]
      rfl
    | cons next others =>
      rw [Attr.itemLiterals, Attr.itemLiterals, commaSeparated_cons_cons, ← Attr.itemLiterals]
        at hfuel ⊢
      simp only [List.length_append, List.length_cons] at hfuel
      simp only [List.append_assoc, List.cons_append]
      have hitem := readValue?_literalCharacters item fuel (',' :: ' ' ::
        (commaSeparated (Attr.itemLiterals (next :: others)) ++ closing :: rest)) hplain.1 hshort.1
        (closes_cons (by decide) _) (by omega)
      have hitems := readItems?_itemLiterals (next :: others) closing fuel rest hplain.2 hshort.2
        hclosing (by omega)
      rw [(hbegins.append _).skipSpaces, readItems?_cons hclosing hbegins hitem hitems]
      rfl

/-- What is written for the fields of a record is read up to the closing brace. -/
theorem readFields?_fieldLiterals (fields : List (String × Attr)) (fuel : Nat) (rest : List Char)
    (hplain : Attr.havePlain fields = true)
    (hshort : Attr.fieldsHaveShortIntegers fields = true)
    (hfuel : 2 * (commaSeparated (Attr.fieldLiterals fields)).length + 2 ≤ fuel) :
    readFields? names fuel
        (skipSpaces (commaSeparated (Attr.fieldLiterals fields) ++ '\x7d' :: rest)) =
      (Attr.evaluatedFields names fields).map fun found ↦ (found, rest) := by
  obtain ⟨fuel, rfl⟩ := Nat.exists_eq_succ_of_ne_zero (by omega : fuel ≠ 0)
  cases fields with
  | nil => exact readFields?_nil
  | cons field others =>
    obtain ⟨key, value⟩ := field
    simp only [Attr.havePlain, Bool.and_eq_true] at hplain
    simp only [Attr.fieldsHaveShortIntegers, Bool.and_eq_true] at hshort
    have hbegins := begins_literalCharacters hplain.1
    cases others with
    | nil =>
      simp only [Attr.fieldLiterals, commaSeparated, List.length_append, List.length_cons]
        at hfuel ⊢
      simp only [List.append_assoc, List.cons_append]
      have hvalue := readValue?_literalCharacters value fuel ('\x7d' :: rest) hplain.1 hshort.1
        (closes_cons (by decide) _) (by omega)
      rw [((begins_quote key).append _).skipSpaces, readFields?_last key hbegins hvalue]
      rfl
    | cons next others =>
      obtain ⟨nextKey, nextValue⟩ := next
      rw [Attr.fieldLiterals, Attr.fieldLiterals, commaSeparated_cons_cons, ← Attr.fieldLiterals]
        at hfuel ⊢
      simp only [List.length_append, List.length_cons] at hfuel
      simp only [List.append_assoc, List.cons_append]
      have hvalue := readValue?_literalCharacters value fuel (',' :: ' ' ::
        (commaSeparated (Attr.fieldLiterals ((nextKey, nextValue) :: others)) ++ '\x7d' :: rest))
        hplain.1 hshort.1 (closes_cons (by decide) _) (by omega)
      have hfields := readFields?_fieldLiterals ((nextKey, nextValue) :: others) fuel rest hplain.2
        hshort.2 (by omega)
      rw [((begins_quote key).append _).skipSpaces, readFields?_cons key hbegins hvalue hfields]
      rfl

end

/-- Surroundings evaluate the literal of a value to what they make of the value. -/
theorem evaluate_literal {value : Attr} (hplain : value.isPlain = true) {text : String}
    (htext : value.literal = .ok text) : evaluate names text = value.evaluated names := by
  obtain ⟨hshort, rfl⟩ := Attr.literal_eq_ok_iff.mp htext
  rw [Attr.unwrap_of_isPlain hplain] at hshort ⊢
  have hskip := (begins_literalCharacters hplain).skipSpaces
  have hread : readValue? names (2 * value.literalCharacters.length + 1)
      (value.literalCharacters ++ []) = _ :=
    readValue?_literalCharacters value _ [] hplain hshort closes_nil le_rfl
  rw [List.append_nil] at hread
  rw [evaluate, String.toList_ofList, hskip]
  simp only [hread]
  cases value.evaluated names <;> rfl

end Values

end Literal

end Handover
