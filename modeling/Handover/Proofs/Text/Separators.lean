import Handover.Text.Identifier
import Mathlib.Data.List.Forall2

/-!
# Names with one identifier form

Two names have one identifier form exactly if they have one length and differ only where both have a
separator or an underscore (`sanitize_eq_sanitize_iff`). The identifier form can be found in three
passes, each of which replaces one separator in the whole name (`sanitizeInTurn`): replacing one
character by another is a map of characters (`Text.replaceFrom_singleton`), and the three maps
together are the one that forms identifiers (`sanitizeInTurn_eq_sanitize`). The names that are their
own identifier forms are those without separators (`sanitize_eq_self_iff`).
-/

set_option autoImplicit false
set_option relaxedAutoImplicit false

namespace Handover

/-! ### Replacing -/

namespace Text

/-- A text in which the occurrences of `old`, which is not empty, are replaced by `new`, from the
first on and without overlaps. The next `covered` characters belong to an occurrence that has been
replaced. -/
def replaceFrom (old new : List Char) : Nat → List Char → List Char
  | _, [] => []
  | covered + 1, _ :: rest => replaceFrom old new covered rest
  | 0, c :: rest =>
    if old.isPrefixOf (c :: rest) then new ++ replaceFrom old new (old.length - 1) rest
    else c :: replaceFrom old new 0 rest

/-- A text in which every occurrence of `old`, which is not empty, is replaced by `new`. -/
def replaceAll (text old new : String) : String :=
  String.ofList (replaceFrom old.toList new.toList 0 text.toList)

/-- Replacing a single character by a single one is a map of characters. -/
theorem replaceFrom_singleton (old new : Char) (text : List Char) :
    replaceFrom [old] [new] 0 text = text.map fun c ↦ if c = old then new else c := by
  induction text with
  | nil => rfl
  | cons c rest ih =>
    have hstart : [old].isPrefixOf (c :: rest) = (old == c) := by simp [List.isPrefixOf]
    rw [replaceFrom, hstart, List.length_singleton, Nat.sub_self, ih, List.map_cons]
    simp only [beq_iff_eq, eq_comm (a := old)]
    split_ifs <;> rfl

end Text

/-- The separators of structured names. -/
def separators : List String := ["/", ":", "."]

/-- A name in which one separator after the other is replaced by an underscore. -/
def sanitizeInTurn (name : String) : String :=
  separators.foldl (fun text separator ↦ Text.replaceAll text separator "_") name

/-- Replacing the separators in turn gives the identifier form. -/
theorem sanitizeInTurn_eq_sanitize (name : String) : sanitizeInTurn name = sanitize name := by
  apply String.toList_injective
  have hpass : ∀ (text : String) (separator : Char),
      (Text.replaceAll text (String.ofList [separator]) "_").toList =
        text.toList.map fun c ↦ if c = separator then '_' else c := by
    intro text separator
    rw [Text.replaceAll, String.toList_ofList, String.toList_ofList]
    exact Text.replaceFrom_singleton separator '_' text.toList
  calc (sanitizeInTurn name).toList
      = ((name.toList.map fun c ↦ if c = '/' then '_' else c).map
          fun c ↦ if c = ':' then '_' else c).map fun c ↦ if c = '.' then '_' else c := by
        rw [← hpass, ← hpass, ← hpass]
        rfl
    _ = name.toList.map separatorToUnderscore := by
        rw [List.map_map, List.map_map]
        refine List.map_congr_left fun c _ ↦ ?_
        simp only [Function.comp_apply, separatorToUnderscore, isSeparator, Bool.or_eq_true,
          beq_iff_eq]
        -- No pass touches the underscores that the passes before it have written.
        by_cases hslash : c = '/'
        · simp [hslash]
        · by_cases hcolon : c = ':' <;> simp [hslash, hcolon]
    _ = (sanitize name).toList := (toList_sanitize name).symm

/-! ### Characters of one form -/

/-- The characters that an underscore stands for in an identifier form. -/
def underscored : List Char := ['/', ':', '.', '_']

theorem isSeparator_iff {c : Char} : isSeparator c = true ↔ c = '/' ∨ c = ':' ∨ c = '.' := by
  simp [isSeparator, or_assoc]

theorem mem_underscored_iff {c : Char} : c ∈ underscored ↔ isSeparator c = true ∨ c = '_' := by
  simp [underscored, isSeparator_iff, or_assoc]

theorem separatorToUnderscore_eq_underscore_iff {c : Char} :
    separatorToUnderscore c = '_' ↔ c ∈ underscored := by
  rw [separatorToUnderscore, mem_underscored_iff]
  split_ifs with hseparator <;> simp [hseparator]

theorem separatorToUnderscore_of_not_mem {c : Char} (hc : c ∉ underscored) :
    separatorToUnderscore c = c :=
  if_neg fun hseparator ↦ hc (mem_underscored_iff.mpr (.inl hseparator))

/-- Two characters have one form if they are equal or an underscore stands for both. -/
theorem separatorToUnderscore_eq_iff {c d : Char} :
    separatorToUnderscore c = separatorToUnderscore d ↔
      c = d ∨ c ∈ underscored ∧ d ∈ underscored := by
  by_cases hc : c ∈ underscored
  · rw [separatorToUnderscore_eq_underscore_iff.mpr hc, eq_comm,
      separatorToUnderscore_eq_underscore_iff]
    constructor
    · exact fun hd ↦ .inr ⟨hc, hd⟩
    · rintro (rfl | ⟨-, hd⟩)
      · exact hc
      · exact hd
  · constructor
    · intro hform
      by_cases hd : d ∈ underscored
      · rw [separatorToUnderscore_eq_underscore_iff.mpr hd,
          separatorToUnderscore_eq_underscore_iff] at hform
        exact absurd hform hc
      · rw [separatorToUnderscore_of_not_mem hc, separatorToUnderscore_of_not_mem hd] at hform
        exact .inl hform
    · rintro (rfl | ⟨hmem, -⟩)
      · rfl
      · exact absurd hmem hc

/-! ### Names of one form -/

/-- Two names have one identifier form exactly if their characters have, one by one. -/
theorem sanitize_eq_sanitize_iff {a b : String} :
    sanitize a = sanitize b ↔
      List.Forall₂ (fun c d ↦ c = d ∨ c ∈ underscored ∧ d ∈ underscored) a.toList b.toList := by
  rw [← String.toList_inj, toList_sanitize, toList_sanitize, ← List.forall₂_eq_eq_eq,
    List.forall₂_map_left_iff, List.forall₂_map_right_iff]
  simp only [separatorToUnderscore_eq_iff]

/-- A name is its own identifier form exactly if it has no separator. -/
theorem sanitize_eq_self_iff {name : String} :
    sanitize name = name ↔ ∀ c ∈ name.toList, ¬ isSeparator c = true := by
  have hmap : name.toList.map separatorToUnderscore = name.toList ↔
      ∀ c ∈ name.toList, separatorToUnderscore c = c := by
    simpa using List.map_inj_left (l := name.toList) (f := separatorToUnderscore) (g := id)
  rw [← String.toList_inj, toList_sanitize, hmap]
  refine forall₂_congr fun c _ ↦ ⟨fun hc hseparator ↦ ?_, fun hc ↦ if_neg hc⟩
  rw [separatorToUnderscore, if_pos hseparator] at hc
  rw [← hc] at hseparator
  exact absurd hseparator (by decide)

/-- Identifier forms have no separators left. -/
@[simp] theorem sanitize_sanitize (name : String) : sanitize (sanitize name) = sanitize name := by
  refine sanitize_eq_self_iff.mpr fun c hc ↦ ?_
  rw [toList_sanitize, List.mem_map] at hc
  obtain ⟨d, -, rfl⟩ := hc
  unfold separatorToUnderscore
  split_ifs with hseparator
  · decide
  · exact hseparator

/-- What identifier forms collapse. Two names have one form exactly if they are of one length and at
every place have the same character or each a separator or an underscore; replacing the separators
in turn gives the same form as mapping all characters at once; and the form of a form is the form,
so that the names that are forms are those without separators. -/
theorem sanitize_collapses :
    (∀ a b : String, sanitize a = sanitize b ↔ a.length = b.length ∧
      ∀ (place : Nat) (c d : Char), a.toList[place]? = some c → b.toList[place]? = some d →
        c = d ∨ c ∈ underscored ∧ d ∈ underscored) ∧
    (∀ name : String, sanitizeInTurn name = sanitize name ∧
      (sanitize name).toList = name.toList.map separatorToUnderscore) ∧
    (∀ name : String, sanitize (sanitize name) = sanitize name) ∧
    ∀ name : String, sanitize name = name ↔
      '/' ∉ name.toList ∧ ':' ∉ name.toList ∧ '.' ∉ name.toList := by
  refine ⟨fun a b ↦ ?_, fun name ↦ ⟨sanitizeInTurn_eq_sanitize name, toList_sanitize name⟩,
    sanitize_sanitize, fun name ↦ ?_⟩
  · rw [sanitize_eq_sanitize_iff, List.forall₂_iff_get, ← String.length_toList,
      ← String.length_toList]
    refine and_congr_right fun hlength ↦ ?_
    constructor
    · intro hforms place c d hc hd
      obtain ⟨ha, rfl⟩ := List.getElem?_eq_some_iff.mp hc
      obtain ⟨hb, rfl⟩ := List.getElem?_eq_some_iff.mp hd
      exact hforms place ha hb
    · intro hforms place ha hb
      exact hforms place _ _ (List.getElem?_eq_getElem ha) (List.getElem?_eq_getElem hb)
  · simp only [sanitize_eq_self_iff, isSeparator_iff]
    constructor
    · intro hname
      exact ⟨fun hmem ↦ hname _ hmem (.inl rfl), fun hmem ↦ hname _ hmem (.inr (.inl rfl)),
        fun hmem ↦ hname _ hmem (.inr (.inr rfl))⟩
    · rintro ⟨hslash, hcolon, hpoint⟩ c hc (rfl | rfl | rfl)
      · exact hslash hc
      · exact hcolon hc
      · exact hpoint hc

end Handover
