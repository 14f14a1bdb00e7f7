import Handover.OrderedMap
import Mathlib.Data.List.Induction
import Mathlib.Data.List.Nodup

/-!
# Keys of maps that remember insertion order

Which keys a map has after an insertion (`contains_insert`), which entries the map of a list has
(`entries_ofList`), that a map is known from its keys and values (`eq_of_find?_eq`), that removing
repetitions from a list keeps its elements (`mem_dedup`) and leaves each of them once
(`nodup_dedup`), and what grouping a list by a key gives (`groupBy_eq`).
-/

set_option autoImplicit false
set_option relaxedAutoImplicit false

namespace Handover.OrderedMap

variable {κ α : Type} [DecidableEq κ]

theorem contains_eq_true_iff {map : OrderedMap κ α} {key : κ} :
    map.contains key = true ↔ key ∈ map.keys := by
  simp [contains, keys]

theorem contains_insert (map : OrderedMap κ α) (key other : κ) (value : α) :
    (map.insert key value).contains other = true ↔ other = key ∨ map.contains other = true := by
  rw [contains_eq_true_iff, contains_eq_true_iff, keys_insert]
  split_ifs with hkey
  · refine (or_iff_right_of_imp ?_).symm
    rintro rfl
    exact contains_eq_true_iff.mp hkey
  · rw [List.mem_append, List.mem_singleton, or_comm]

theorem nodup_keys_insert {map : OrderedMap κ α} (hnodup : map.keys.Nodup) (key : κ) (value : α) :
    (map.insert key value).keys.Nodup := by
  rw [keys_insert]
  split_ifs with hkey
  · exact hnodup
  · rw [contains_eq_true_iff] at hkey
    rw [List.nodup_append_comm]
    exact List.nodup_cons.mpr ⟨hkey, hnodup⟩

/-- The map of a list of entries that is inserted into another map. -/
theorem foldl_insert (entries : List (κ × α)) {map : OrderedMap κ α} (hnodup : map.keys.Nodup) :
    let final := entries.foldl (fun map entry ↦ map.insert entry.1 entry.2) map
    final.keys.Nodup ∧ ∀ key, key ∈ final.keys ↔ key ∈ map.keys ∨ key ∈ entries.map Prod.fst := by
  induction entries generalizing map with
  | nil => exact ⟨hnodup, by simp⟩
  | cons entry rest ih =>
    obtain ⟨hkeys, hmem⟩ := ih (nodup_keys_insert hnodup entry.1 entry.2)
    refine ⟨hkeys, fun key ↦ ?_⟩
    rw [List.foldl_cons, hmem, ← contains_eq_true_iff, contains_insert, contains_eq_true_iff,
      List.map_cons, List.mem_cons, or_assoc, or_left_comm]

section Values

variable {β : Type}

/-- The map with every value changed. -/
def mapValues (change : α → β) (map : OrderedMap κ α) : OrderedMap κ β :=
  ⟨map.entries.map fun entry ↦ (entry.1, change entry.2)⟩

theorem find?_mapValues (change : α → β) (map : OrderedMap κ α) (key : κ) :
    (map.mapValues change).find? key = (map.find? key).map change := by
  rw [find?, find?, mapValues, List.find?_map, Option.map_map, Option.map_map]
  rfl

omit [DecidableEq κ] in
theorem keys_mapValues (change : α → β) (map : OrderedMap κ α) :
    (map.mapValues change).keys = map.keys := by
  simp [keys, mapValues]

theorem mapValues_insert (change : α → β) (map : OrderedMap κ α) (key : κ) (value : α) :
    (map.insert key value).mapValues change = (map.mapValues change).insert key (change value) := by
  obtain ⟨entries⟩ := map
  refine congrArg mk ?_
  induction entries with
  | nil => rfl
  | cons entry rest ih =>
    simp only [insert, mapValues, List.map_cons, insertEntry] at ih ⊢
    split_ifs
    · rfl
    · rw [List.map_cons, ih]

theorem mapValues_foldl_insert (change : α → β) (entries : List (κ × α)) (map : OrderedMap κ α) :
    (entries.foldl (fun map entry ↦ map.insert entry.1 entry.2) map).mapValues change =
      (entries.map fun entry ↦ (entry.1, change entry.2)).foldl
        (fun map entry ↦ map.insert entry.1 entry.2) (map.mapValues change) := by
  induction entries generalizing map with
  | nil => rfl
  | cons entry rest ih => rw [List.foldl_cons, ih, mapValues_insert, List.map_cons, List.foldl_cons]

theorem mapValues_ofList (change : α → β) (entries : List (κ × α)) :
    (ofList entries).mapValues change =
      ofList (entries.map fun entry ↦ (entry.1, change entry.2)) :=
  mapValues_foldl_insert change entries ⟨[]⟩

end Values

section Entries

variable {map : OrderedMap κ α}

theorem mem_entries_of_find? {key : κ} {value : α} (hvalue : map.find? key = some value) :
    (key, value) ∈ map.entries := by
  obtain ⟨⟨other, found⟩, hfound, rfl⟩ := Option.map_eq_some_iff.mp hvalue
  have hkey : other = key := by simpa using List.find?_some hfound
  exact hkey ▸ List.mem_of_find?_eq_some hfound

theorem insert_of_not_mem {key : κ} (hkey : key ∉ map.keys) (value : α) :
    map.insert key value = ⟨map.entries ++ [(key, value)]⟩ := by
  obtain ⟨entries⟩ := map
  refine congrArg mk ?_
  induction entries with
  | nil => rfl
  | cons entry rest ih =>
    obtain ⟨hhead, hrest⟩ : entry.1 ≠ key ∧ key ∉ (mk rest).keys := by
      simpa [keys, eq_comm] using hkey
    rw [insertEntry, if_neg hhead, ih hrest, List.cons_append]

theorem keys_insert_of_mem {key : κ} (hkey : key ∈ map.keys) (value : α) :
    (map.insert key value).keys = map.keys := by
  rw [keys_insert, if_pos (contains_eq_true_iff.mpr hkey)]

/-- Entries behind those of a map are not reached at a key of the map. -/
theorem find?_append_of_mem {key : κ} (hkey : key ∈ map.keys) (tail : List (κ × α)) :
    (mk (map.entries ++ tail)).find? key = map.find? key := by
  have hsome : (map.entries.find? fun entry ↦ entry.1 = key).isSome = true := by
    rw [← Option.isSome_map, ← find?, ← contains_eq_isSome, contains_eq_true_iff]
    exact hkey
  rw [find?, find?, List.find?_append, Option.or_of_isSome hsome]

theorem insert_append_of_mem {key : κ} (hkey : key ∈ map.keys) (value : α) (tail : List (κ × α)) :
    (mk (map.entries ++ tail)).insert key value = ⟨(map.insert key value).entries ++ tail⟩ := by
  obtain ⟨entries⟩ := map
  refine congrArg mk ?_
  simp only [insert, keys] at hkey ⊢
  induction entries with
  | nil => cases hkey
  | cons entry rest ih =>
    rw [List.cons_append, insertEntry, insertEntry]
    split_ifs with hhead
    · rfl
    · rw [ih ((List.mem_cons.mp hkey).resolve_left (Ne.symm hhead)), List.cons_append]

theorem mem_entries_insert {key : κ} {value : α} {entry : κ × α}
    (hentry : entry ∈ (map.insert key value).entries) :
    entry = (key, value) ∨ entry ∈ map.entries := by
  obtain ⟨entries⟩ := map
  simp only [insert] at hentry ⊢
  induction entries with
  | nil => exact .inl (List.mem_singleton.mp hentry)
  | cons head rest ih =>
    rw [insertEntry] at hentry
    split_ifs at hentry
    · exact (List.mem_cons.mp hentry).imp_right (List.mem_cons_of_mem _)
    · rcases List.mem_cons.mp hentry with rfl | hentry
      · exact .inr (List.mem_cons_self ..)
      · exact (ih hentry).imp_right (List.mem_cons_of_mem _)

theorem foldl_insert_of_nodup {entries : List (κ × α)}
    (hnodup : (map.keys ++ entries.map Prod.fst).Nodup) :
    entries.foldl (fun map entry ↦ map.insert entry.1 entry.2) map = ⟨map.entries ++ entries⟩ := by
  induction entries generalizing map with
  | nil => simp
  | cons entry rest ih =>
    have hkey : entry.1 ∉ map.keys := by
      intro hmem
      exact (List.nodup_append.mp hnodup).2.2 _ hmem _ (List.mem_cons_self ..) rfl
    rw [List.foldl_cons, insert_of_not_mem hkey, ih (by simpa [keys] using hnodup)]
    simp

theorem mem_entries_foldl_insert {entries : List (κ × α)} {entry : κ × α}
    (hentry : entry ∈ (entries.foldl (fun map entry ↦ map.insert entry.1 entry.2) map).entries) :
    entry ∈ map.entries ∨ entry ∈ entries := by
  induction entries generalizing map with
  | nil => exact .inl hentry
  | cons head rest ih =>
    rcases ih hentry with hentry | hentry
    · rcases mem_entries_insert hentry with rfl | hentry
      · exact .inr (List.mem_cons_self ..)
      · exact .inl hentry
    · exact .inr (List.mem_cons_of_mem _ hentry)

theorem mem_of_mem_entries_ofList {entries : List (κ × α)} {entry : κ × α}
    (hentry : entry ∈ (ofList entries).entries) : entry ∈ entries :=
  (mem_entries_foldl_insert hentry).resolve_left (by simp)

theorem nodup_keys_ofList (entries : List (κ × α)) : (ofList entries).keys.Nodup := by
  have hnone : (⟨[]⟩ : OrderedMap κ α).keys.Nodup := List.nodup_nil
  exact (foldl_insert entries hnone).1

theorem mem_keys_ofList {entries : List (κ × α)} {key : κ} :
    key ∈ (ofList entries).keys ↔ key ∈ entries.map Prod.fst := by
  have hnone : (⟨[]⟩ : OrderedMap κ α).keys.Nodup := List.nodup_nil
  refine ((foldl_insert entries hnone).2 key).trans ?_
  simp [keys]

/-- The map of a list of entries in which no key comes twice has just these entries. -/
theorem entries_ofList {entries : List (κ × α)} (hnodup : (entries.map Prod.fst).Nodup) :
    (ofList entries).entries = entries := by
  rw [ofList, foldl_insert_of_nodup (by simpa [keys] using hnodup), List.nil_append]

/-- A map is known from its keys in order and the value at each. -/
theorem eq_of_find?_eq {first second : OrderedMap κ α} (hkeys : first.keys = second.keys)
    (hnodup : first.keys.Nodup) (hfind : ∀ key ∈ first.keys, first.find? key = second.find? key) :
    first = second := by
  obtain ⟨entries⟩ := first
  obtain ⟨others⟩ := second
  refine congrArg mk ?_
  simp only [keys, find?] at hkeys hnodup hfind
  induction entries generalizing others with
  | nil => exact (List.map_eq_nil_iff.mp hkeys.symm).symm
  | cons entry rest ih =>
    obtain ⟨other, remaining, rfl, hhead, htail⟩ := List.map_eq_cons_iff.mp hkeys.symm
    obtain ⟨hnew, hrest⟩ := List.nodup_cons.mp hnodup
    have hvalue := hfind entry.1 (List.mem_cons_self ..)
    simp only [List.find?_cons, hhead, decide_true, Option.map_some, Option.some.injEq] at hvalue
    rw [ih hrest remaining htail.symm fun key hkey ↦ ?_, Prod.ext hhead.symm hvalue]
    have hne : entry.1 ≠ key := fun heq ↦ hnew (heq ▸ hkey)
    have hsame := hfind key (List.mem_cons_of_mem _ hkey)
    simpa only [List.find?_cons, hhead, hne, decide_false] using hsame

/-- A value that is inserted where it is already changes nothing. -/
theorem insert_of_find? {map : OrderedMap κ α} {key : κ} {value : α}
    (hvalue : map.find? key = some value) : map.insert key value = map := by
  obtain ⟨entries⟩ := map
  refine congrArg mk ?_
  simp only [find?] at hvalue
  induction entries with
  | nil => cases hvalue
  | cons entry rest ih =>
    rw [insertEntry]
    split_ifs with hkey
    · simp only [List.find?_cons, hkey, decide_true, Option.map_some, Option.some.injEq] at hvalue
      rw [← hkey, ← hvalue]
    · simp only [List.find?_cons, hkey, decide_false] at hvalue
      rw [ih hvalue]

end Entries

section Dedup

variable {keys : List κ}

theorem nodup_dedup (keys : List κ) : (dedup keys).Nodup :=
  nodup_keys_ofList (keys.map fun key ↦ (key, ()))

theorem mem_dedup {key : κ} : key ∈ dedup keys ↔ key ∈ keys := by
  rw [dedup, mem_keys_ofList, List.map_map]
  exact iff_of_eq (congrArg _ (List.map_id _))

/-- One more element comes last unless it was there before. -/
theorem dedup_append_singleton (keys : List κ) (key : κ) :
    dedup (keys ++ [key]) = if key ∈ keys then dedup keys else dedup keys ++ [key] := by
  rw [dedup, List.map_append, ofList, List.foldl_append]
  show (insert (ofList (keys.map fun key ↦ (key, ()))) key ()).keys = _
  rw [keys_insert]
  exact if_congr (contains_eq_true_iff.trans mem_dedup) rfl rfl

theorem dedup_append_replicate {keys : List κ} {key : κ} (hkey : key ∉ keys) (count : Nat) :
    dedup (keys ++ List.replicate count key) =
      if count = 0 then dedup keys else dedup keys ++ [key] := by
  induction count with
  | zero => simp
  | succ count ih =>
    rw [List.replicate_succ', ← List.append_assoc, dedup_append_singleton, ih]
    cases count with
    | zero => simp [hkey]
    | succ count => simp

end Dedup

/-! ### Grouping -/

section Grouping

theorem getD_find?_push (map : OrderedMap κ (List α)) (key other : κ) (item : α) :
    ((map.push key item).find? other).getD [] =
      (map.find? other).getD [] ++ if other = key then [item] else [] := by
  by_cases hkey : other = key
  · subst hkey
    rw [push, find?_insert_self, if_pos rfl, Option.getD_some]
  · rw [push, find?_insert_of_ne _ hkey, if_neg hkey, List.append_nil]

theorem keys_push_of_mem {map : OrderedMap κ (List α)} {key : κ} (hkey : key ∈ map.keys)
    (item : α) : (map.push key item).keys = map.keys :=
  keys_insert_of_mem hkey _

theorem push_append_of_mem {map : OrderedMap κ (List α)} {key : κ} (hkey : key ∈ map.keys)
    (item : α) (tail : List (κ × List α)) :
    (mk (map.entries ++ tail)).push key item = ⟨(map.push key item).entries ++ tail⟩ := by
  rw [push, find?_append_of_mem hkey, insert_append_of_mem hkey]
  rfl

/-- The value at a key of a map that is given by a function on its keys. -/
theorem find?_mk_map (keys : List κ) (value : κ → α) {key : κ} (hkey : key ∈ keys) :
    (mk (keys.map fun key ↦ (key, value key))).find? key = some (value key) := by
  have hfound : (keys.find? fun other ↦ other = key) = some key := by
    rw [List.find?_eq_some_iff_append]
    obtain ⟨before, after, rfl, hbefore⟩ := List.eq_append_cons_of_mem hkey
    exact ⟨decide_eq_true rfl, before, after, rfl, fun other hother ↦ by
      simpa using fun heq : other = key ↦ hbefore (heq ▸ hother)⟩
  rw [find?, List.find?_map]
  simp only [Function.comp_def, hfound, Option.map_some]

variable (key : α → κ)

theorem groupBy_append_singleton (items : List α) (item : α) :
    groupBy key (items ++ [item]) = (groupBy key items).push (key item) item :=
  List.foldl_append ..

/-- The keys of groups come in the order in which they first occur. -/
theorem keys_groupBy (items : List α) : (groupBy key items).keys = dedup (items.map key) := by
  induction items using List.reverseRecOn with
  | nil => rfl
  | append_singleton items item ih =>
    rw [groupBy_append_singleton, push, keys_insert, ih, List.map_append, List.map_cons,
      List.map_nil, dedup_append_singleton]
    exact if_congr (contains_eq_true_iff.trans (by rw [ih, mem_dedup])) rfl rfl

/-- A group has all items of its key, in their order. -/
theorem getD_find?_groupBy (items : List α) (group : κ) :
    ((groupBy key items).find? group).getD [] = items.filter fun item ↦ key item = group := by
  induction items using List.reverseRecOn with
  | nil => rfl
  | append_singleton items item ih =>
    rw [groupBy_append_singleton, getD_find?_push, ih, List.filter_append, List.filter_singleton]
    simp only [Bool.cond_decide, eq_comm]

/-- What grouping finds: each key once, where it first occurs, with all items of it. -/
theorem groupBy_eq (items : List α) :
    groupBy key items =
      ⟨(dedup (items.map key)).map fun group ↦
        (group, items.filter fun item ↦ key item = group)⟩ := by
  have hkeys := keys_groupBy key items
  refine eq_of_find?_eq ?_ (hkeys ▸ nodup_dedup _) fun group hgroup ↦ ?_
  · rw [hkeys, keys, List.map_map]
    exact (List.map_id _).symm
  · rw [find?_mk_map _ _ (hkeys ▸ hgroup), ← getD_find?_groupBy key items group]
    cases hfound : (groupBy key items).find? group with
    | some members => rfl
    | none =>
      rw [← contains_eq_true_iff, contains_eq_isSome, hfound] at hgroup
      cases hgroup

end Grouping

end Handover.OrderedMap
