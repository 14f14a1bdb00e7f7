import Handover.Proofs.Document.Values
import Handover.Proofs.Literal.Values

/-!
# What literals denote

What is written for a value that is built of plain ones stands on one line and denotes the value: it
is a literal that is read back as the value, if every number in it is finite, and an expression that
cannot be read without names, if one is not. Nothing is written if an integer in it has too many
digits (`Attr.literal_denotes`). Where `inf` and `nan` stand
for infinity and the plain not-a-number (`Literal.realNames`), every such value is evaluated to
itself but for its not-a-numbers (`Attr.withPlainNaNs`), so that two values are written alike
exactly if they differ in these at most.
-/

set_option autoImplicit false
set_option relaxedAutoImplicit false

namespace Handover

/-- Surroundings in which `inf` and `nan` stand for infinity and the plain not-a-number. -/
def Literal.realNames (name : String) : Option Attr :=
  if name = "inf" then some (.real (Word.ofNumber .float64 (.infinite false)))
  else if name = "nan" then some (.real (Word.ofNumber .float64 .nan))
  else none

namespace Attr

/-! ### Numbers that are not finite -/

section Finite

mutual

/-- Whether every number in a value is finite. -/
def isFinite : Attr → Bool
  | real value =>
    match value.toNumber with
    | .finite _ _ _ => true
    | _ => false
  | list items | tuple items _ => areFinite items
  | record fields => haveFinite fields
  | _ => true

/-- Whether every number in some items is finite. -/
def areFinite : List Attr → Bool
  | [] => true
  | item :: rest => item.isFinite && areFinite rest

/-- Whether every number in the values of some fields is finite. -/
def haveFinite : List (String × Attr) → Bool
  | [] => true
  | (_, value) :: rest => value.isFinite && haveFinite rest

end

mutual

/-- Without further names, a value is made of what is written for it exactly if its numbers are
finite. -/
theorem evaluated_without_names (value : Attr) :
    value.evaluated (fun _ ↦ none) = if value.isFinite then some value else none := by
  cases value with
  | null | bool | int | text | scalar => rfl
  | real word =>
    rw [evaluated, isFinite]
    cases word.toNumber with
    | nan => rfl
    | infinite negative => cases negative <;> rfl
    | finite negative mantissa exponent => rfl
  | list items | tuple items =>
    rw [evaluated, isFinite, evaluatedItems_without_names items]
    split_ifs <;> rfl
  | record fields =>
    rw [evaluated, isFinite, evaluatedFields_without_names fields]
    split_ifs <;> rfl

theorem evaluatedItems_without_names (items : List Attr) :
    evaluatedItems (fun _ ↦ none) items = if areFinite items then some items else none := by
  cases items with
  | nil => rfl
  | cons item rest =>
    rw [evaluatedItems, areFinite, evaluated_without_names item, evaluatedItems_without_names rest]
    cases item.isFinite <;> cases areFinite rest <;> rfl

theorem evaluatedFields_without_names (fields : List (String × Attr)) :
    evaluatedFields (fun _ ↦ none) fields = if haveFinite fields then some fields else none := by
  cases fields with
  | nil => rfl
  | cons field rest =>
    obtain ⟨key, value⟩ := field
    rw [evaluatedFields, haveFinite, evaluated_without_names value,
      evaluatedFields_without_names rest]
    cases value.isFinite <;> cases haveFinite rest <;> rfl

end

end Finite

/-! ### Plain not-a-numbers -/

section PlainNaNs

mutual

/-- The value in which every not-a-number is the plain one. -/
def withPlainNaNs : Attr → Attr
  | list items => list (itemsWithPlainNaNs items)
  | tuple items form => tuple (itemsWithPlainNaNs items) form
  | record fields => record (fieldsWithPlainNaNs fields)
  | value => value.withPlainNaN

/-- Some items in which every not-a-number is the plain one. -/
def itemsWithPlainNaNs : List Attr → List Attr
  | [] => []
  | item :: rest => item.withPlainNaNs :: itemsWithPlainNaNs rest

/-- Some fields in whose values every not-a-number is the plain one. -/
def fieldsWithPlainNaNs : List (String × Attr) → List (String × Attr)
  | [] => []
  | (key, value) :: rest => (key, value.withPlainNaNs) :: fieldsWithPlainNaNs rest

end

/-- A number is found again where `inf` and `nan` stand for numbers. -/
theorem evaluated_real (word : Word .float64) :
    (real word).evaluated Literal.realNames = some (real word).withPlainNaN := by
  rw [evaluated, withPlainNaN]
  cases hnumber : word.toNumber with
  | nan => rfl
  | infinite negative => cases negative <;> rfl
  | finite negative mantissa exponent =>
    have hnan : word.toNumber ≠ .nan := by simp [hnumber]
    have hword := Word.ofNumber_toNumber hnan
    rw [hnumber] at hword
    rw [hword]

mutual

/-- Where `inf` and `nan` stand for numbers, a value is made of what is written for it, with plain
not-a-numbers. -/
theorem evaluated_realNames (value : Attr) :
    value.evaluated Literal.realNames = some value.withPlainNaNs := by
  cases value with
  | null | bool | int | text | scalar => rfl
  | real word => exact evaluated_real word
  | list items | tuple items =>
    rw [evaluated, withPlainNaNs, evaluatedItems_realNames items]
    rfl
  | record fields =>
    rw [evaluated, withPlainNaNs, evaluatedFields_realNames fields]
    rfl

theorem evaluatedItems_realNames (items : List Attr) :
    evaluatedItems Literal.realNames items = some (itemsWithPlainNaNs items) := by
  cases items with
  | nil => rfl
  | cons item rest =>
    rw [evaluatedItems, evaluated_realNames item, evaluatedItems_realNames rest]
    rfl

theorem evaluatedFields_realNames (fields : List (String × Attr)) :
    evaluatedFields Literal.realNames fields = some (fieldsWithPlainNaNs fields) := by
  cases fields with
  | nil => rfl
  | cons field rest =>
    obtain ⟨key, value⟩ := field
    rw [evaluatedFields, evaluated_realNames value, evaluatedFields_realNames rest]
    rfl

end

mutual

/-- All not-a-numbers are written alike. -/
theorem literalCharacters_withPlainNaNs (value : Attr) :
    value.withPlainNaNs.literalCharacters = value.literalCharacters := by
  cases value with
  | null | bool | int | text | scalar => rfl
  | real word =>
    have hplain : (real word).withPlainNaNs = real (Word.ofNumber .float64 word.toNumber) := rfl
    rw [hplain]
    by_cases hnumber : word.toNumber = .nan
    · rw [literalCharacters, literalCharacters, hnumber]
      rfl
    · rw [Word.ofNumber_toNumber hnumber]
  | list items =>
    rw [withPlainNaNs, literalCharacters, literalCharacters, itemLiterals_withPlainNaNs items]
  | tuple items form =>
    cases form <;>
      rw [withPlainNaNs, literalCharacters, literalCharacters, itemLiterals_withPlainNaNs items]
  | record fields =>
    rw [withPlainNaNs, literalCharacters, literalCharacters, fieldLiterals_withPlainNaNs fields]

theorem itemLiterals_withPlainNaNs (items : List Attr) :
    itemLiterals (itemsWithPlainNaNs items) = itemLiterals items := by
  cases items with
  | nil => rfl
  | cons item rest =>
    rw [itemsWithPlainNaNs, itemLiterals, itemLiterals, literalCharacters_withPlainNaNs item,
      itemLiterals_withPlainNaNs rest]

theorem fieldLiterals_withPlainNaNs (fields : List (String × Attr)) :
    fieldLiterals (fieldsWithPlainNaNs fields) = fieldLiterals fields := by
  cases fields with
  | nil => rfl
  | cons field rest =>
    obtain ⟨key, value⟩ := field
    rw [fieldsWithPlainNaNs, fieldLiterals, fieldLiterals, literalCharacters_withPlainNaNs value,
      fieldLiterals_withPlainNaNs rest]

end

mutual

/-- Not-a-numbers do not count for the digits of integers. -/
theorem hasShortIntegers_withPlainNaNs (value : Attr) :
    value.withPlainNaNs.hasShortIntegers = value.hasShortIntegers := by
  cases value with
  | null | bool | int | text | scalar | real => rfl
  | list items | tuple items =>
    rw [withPlainNaNs, hasShortIntegers, hasShortIntegers, haveShortIntegers_withPlainNaNs items]
  | record fields =>
    rw [withPlainNaNs, hasShortIntegers, hasShortIntegers,
      fieldsHaveShortIntegers_withPlainNaNs fields]

theorem haveShortIntegers_withPlainNaNs (items : List Attr) :
    haveShortIntegers (itemsWithPlainNaNs items) = haveShortIntegers items := by
  cases items with
  | nil => rfl
  | cons item rest =>
    rw [itemsWithPlainNaNs, haveShortIntegers, haveShortIntegers,
      hasShortIntegers_withPlainNaNs item, haveShortIntegers_withPlainNaNs rest]

theorem fieldsHaveShortIntegers_withPlainNaNs (fields : List (String × Attr)) :
    fieldsHaveShortIntegers (fieldsWithPlainNaNs fields) = fieldsHaveShortIntegers fields := by
  cases fields with
  | nil => rfl
  | cons field rest =>
    obtain ⟨key, value⟩ := field
    rw [fieldsWithPlainNaNs, fieldsHaveShortIntegers, fieldsHaveShortIntegers,
      hasShortIntegers_withPlainNaNs value, fieldsHaveShortIntegers_withPlainNaNs rest]

end

end PlainNaNs

/-! ### Denotation -/

section Denotation

mutual

/-- A value that is built of plain ones is stored as it is. -/
theorem plain_of_isPlain {value : Attr} (hplain : value.isPlain = true) : value.plain = value := by
  cases value with
  | null | bool | int | real | text | record => rfl
  | scalar value => cases hplain
  | list items => rw [plain, plainItems_of_arePlain hplain]
  | tuple items => rw [plain, plainItems_of_arePlain (isPlain_tuple.mp hplain).2]

theorem plainItems_of_arePlain {items : List Attr} (hplain : arePlain items = true) :
    plainItems items = items := by
  cases items with
  | nil => rfl
  | cons item rest =>
    rw [arePlain, Bool.and_eq_true] at hplain
    rw [plainItems, plain_of_isPlain hplain.1, plainItems_of_arePlain hplain.2]

end

/-- A value that is built of plain ones is stored as it is. It is written exactly if no integer in
it has too many digits. What is written stands on one line and is read back as the value if its
numbers are finite, and as nothing if one of them is not. Where `inf` and `nan` stand for numbers it
is evaluated to the value with plain not-a-numbers, and it is written for the values that are then
the same and for no others. -/
theorem literal_denotes {value : Attr} (hvalue : value.isPlain = true) :
    value.plain = value ∧
      (value.hasShortIntegers = false → value.literal = fails .integerTooLong) ∧
      (value.hasShortIntegers = true → ∃ text, value.literal = .ok text ∧
        Text.OneLine text.toList ∧
        Literal.read text = (if value.isFinite then some value else none) ∧
        Literal.evaluate Literal.realNames text = some value.withPlainNaNs ∧
        ∀ other : Attr, other.isPlain = true →
          (other.literal = .ok text ↔ other.withPlainNaNs = value.withPlainNaNs)) := by
  have hnames {attr : Attr} (hattr : attr.isPlain = true) {text : String}
      (htext : attr.literal = .ok text) :
      Literal.evaluate Literal.realNames text = some attr.withPlainNaNs :=
    (Literal.evaluate_literal hattr htext).trans attr.evaluated_realNames
  have hunwrap := unwrap_of_isPlain hvalue
  refine ⟨plain_of_isPlain hvalue, fun hlong ↦ ?_, fun hshort ↦ ?_⟩
  · rw [literal, hunwrap, hlong]
    rfl
  have hwritten : value.literal = .ok (String.ofList value.literalCharacters) := by
    rw [literal, hunwrap, hshort]
    rfl
  refine ⟨_, hwritten, oneLine_literal hwritten,
    (Literal.evaluate_literal hvalue hwritten).trans value.evaluated_without_names,
    hnames hvalue hwritten, fun other hother ↦ ⟨fun hsame ↦ ?_, fun hsame ↦ ?_⟩⟩
  · exact Option.some.inj ((hnames hother hsame).symm.trans (hnames hvalue hwritten))
  · rw [literal_eq_ok_iff, unwrap_of_isPlain hother, ← hasShortIntegers_withPlainNaNs other,
      ← literalCharacters_withPlainNaNs other, hsame, hasShortIntegers_withPlainNaNs value,
      literalCharacters_withPlainNaNs value]
    exact ⟨hshort, rfl⟩

/-- A record of a tuple of one and a list, with a quote in a key and in a text. -/
def nested : Attr :=
  record [("axes", tuple [int (-1)]), ("it's", list [real 0xBFF8000000000000, null, text "\x22"])]

theorem literal_denotes_nested :
    nested.literal = .ok "\x7b'axes': (-1,), \x22it's\x22: [-1.5, None, '\x22']\x7d" ∧
      Literal.read "\x7b'axes': (-1,), \x22it's\x22: [-1.5, None, '\x22']\x7d" = some nested ∧
      (list [nested, real 0x7FF0000000000000]).literal ≠ nested.literal := by
  have hplain : nested.isPlain = true := by decide
  have hother : (list [nested, real 0x7FF0000000000000]).isPlain = true := by decide
  have hfinite : nested.isFinite = true := by decide
  have hwritten : nested.literal =
      .ok "\x7b'axes': (-1,), \x22it's\x22: [-1.5, None, '\x22']\x7d" := by
    rw [literal_eq_ok_iff]
    decide +kernel
  obtain ⟨text, htext, -, hread, -, hsame⟩ := (literal_denotes hplain).2.2 (by decide +kernel)
  obtain rfl := Except.ok.inj (hwritten.symm.trans htext)
  rw [if_pos hfinite] at hread
  refine ⟨hwritten, hread, fun hliteral ↦ ?_⟩
  cases (hsame _ hother).mp (hliteral.trans hwritten)

/-- Infinity is written as a name, which is no literal. -/
theorem infinity_not_read :
    (real 0x7FF0000000000000).isPlain = true ∧ (real 0x7FF0000000000000).literal = .ok "inf" ∧
      Literal.read "inf" = none := by
  refine ⟨rfl, ?_, by decide⟩
  rw [literal_eq_ok_iff]
  decide

end Denotation

end Attr

end Handover
