/-!
# Maps that remember insertion order

A finite map whose keys come in the order in which they were first inserted (`OrderedMap`).
Inserting at a key that is present replaces the value and leaves the key where it is; erasing a key
and inserting it again moves it to the end.
-/

set_option autoImplicit false
set_option relaxedAutoImplicit false

namespace Handover

/-- A finite map with its entries in the order of first insertion. -/
structure OrderedMap (κ α : Type) where
  entries : List (κ × α) := []
deriving Repr

namespace OrderedMap

variable {κ α β : Type}

instance : Inhabited (OrderedMap κ α) := ⟨⟨[]⟩⟩

/-- The keys, in order. -/
def keys (map : OrderedMap κ α) : List κ := map.entries.map Prod.fst

/-- The values, in the order of their keys. -/
def values (map : OrderedMap κ α) : List α := map.entries.map Prod.snd

/-- The number of keys. -/
def size (map : OrderedMap κ α) : Nat := map.entries.length

variable [DecidableEq κ]

/-- The value at a key. -/
def find? (map : OrderedMap κ α) (key : κ) : Option α :=
  (map.entries.find? fun entry ↦ entry.1 = key).map Prod.snd

/-- Whether a key is present. -/
def contains (map : OrderedMap κ α) (key : κ) : Bool :=
  map.entries.any fun entry ↦ entry.1 = key

/-- A list of entries with the value at a key replaced, or the entry appended. -/
def insertEntry (key : κ) (value : α) : List (κ × α) → List (κ × α)
  | [] => [(key, value)]
  | entry :: rest =>
    if entry.1 = key then (key, value) :: rest else entry :: insertEntry key value rest

/-- The map with a value at a key. -/
def insert (map : OrderedMap κ α) (key : κ) (value : α) : OrderedMap κ α :=
  ⟨insertEntry key value map.entries⟩

/-- The map without a key. -/
def erase (map : OrderedMap κ α) (key : κ) : OrderedMap κ α :=
  ⟨map.entries.filter fun entry ↦ entry.1 ≠ key⟩

/-- The map of lists with an item at the end of the list at a key, which is empty at first. -/
def push (map : OrderedMap κ (List α)) (key : κ) (item : α) : OrderedMap κ (List α) :=
  map.insert key ((map.find? key).getD [] ++ [item])

/-- Items grouped by a key: each in turn comes at the end of the list of its key. -/
def groupBy (key : α → κ) (items : List α) : OrderedMap κ (List α) :=
  items.foldl (fun groups item ↦ groups.push (key item) item) ⟨[]⟩

/-- The map of a list of entries, a later value at a key replacing an earlier one. -/
def ofList (entries : List (κ × α)) : OrderedMap κ α :=
  entries.foldl (fun map entry ↦ map.insert entry.1 entry.2) ⟨[]⟩

/-- The list without repetitions, every element where it first occurs. -/
def dedup (keys : List κ) : List κ :=
  (ofList (keys.map fun key ↦ (key, ()))).keys

/-! ### Lookups after a change -/

section Lookups

variable (map : OrderedMap κ α)

@[simp] theorem find?_insert_self (key : κ) (value : α) :
    (map.insert key value).find? key = some value := by
  obtain ⟨entries⟩ := map
  simp only [insert, find?]
  induction entries with
  | nil => simp [insertEntry]
  | cons entry rest ih =>
    by_cases h : entry.1 = key
    · simp [insertEntry, h]
    · simpa [insertEntry, h] using ih

theorem find?_insert_of_ne {key other : κ} (h : other ≠ key) (value : α) :
    (map.insert key value).find? other = map.find? other := by
  obtain ⟨entries⟩ := map
  simp only [insert, find?]
  induction entries with
  | nil => simp [insertEntry, Ne.symm h]
  | cons entry rest ih =>
    by_cases hkey : entry.1 = key
    · have hother : entry.1 ≠ other := fun heq ↦ h (heq.symm.trans hkey)
      simp [insertEntry, hkey, Ne.symm h]
    · by_cases hother : entry.1 = other
      · simp [insertEntry, hother, h]
      · simpa [insertEntry, hkey, hother] using ih

@[simp] theorem find?_erase_self (key : κ) : (map.erase key).find? key = none := by
  simp [erase, find?, List.find?_filter]

theorem find?_erase_of_ne {key other : κ} (h : other ≠ key) :
    (map.erase key).find? other = map.find? other := by
  simp only [erase, find?, List.find?_filter]
  congr 2
  funext entry
  by_cases hother : entry.1 = other
  · simp [hother, h]
  · simp [hother]

theorem contains_eq_isSome (key : κ) : map.contains key = (map.find? key).isSome := by
  rw [contains, find?, Option.isSome_map, Bool.eq_iff_iff, List.any_eq_true, List.find?_isSome]

/-- A key that is present keeps its place, and a new one comes last. -/
theorem keys_insert (key : κ) (value : α) :
    (map.insert key value).keys =
      if map.contains key then map.keys else map.keys ++ [key] := by
  obtain ⟨entries⟩ := map
  simp only [insert, keys, contains]
  induction entries with
  | nil => simp [insertEntry]
  | cons entry rest ih =>
    by_cases h : entry.1 = key
    · simp [insertEntry, h]
    · by_cases hrest : rest.any fun entry ↦ entry.1 = key <;>
        simp_all [insertEntry]

end Lookups

end OrderedMap

end Handover
