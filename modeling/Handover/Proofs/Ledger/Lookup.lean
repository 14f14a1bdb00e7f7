import Handover.Ledger.Basic
import Mathlib.Data.List.Nodup
import Mathlib.Order.Bounds.Basic

/-!
# Generations in order

What a ledger knows of an identifier, read without its representation: the positions of its
generations (`Ledger.positionsOf`), the pending uses of one of them (`Ledger.pendingAt`), and the
position of the generation that a use resolves to (`Ledger.origin`). In a ledger whose generations
stand in the order of their positions (`Ledger.Ordered`) the reverse scan finds the greatest
position at or below that of the use (`lastNotAfter_eq_some_iff`, `origin_eq_some_iff`), and setting
the pending uses of one generation changes no other (`pendingAt_setPending`).
-/

set_option autoImplicit false
set_option relaxedAutoImplicit false

namespace Handover

/-- A use of a value: the identifier form of the name that is read, and the position of the read. -/
structure Use where
  ident : String
  position : Int
deriving DecidableEq, Repr

/-! ### Lists of generations -/

section Generations

variable {generations : List Generation}

/-- The pending uses of the generation at a position, none when there is no such generation. -/
def pendingIn (generations : List Generation) (position : Int) : Nat :=
  ((generations.find? fun generation ↦ generation.position = position).map
    Generation.pending).getD 0

@[simp] theorem pendingIn_nil (position : Int) : pendingIn [] position = 0 := rfl

theorem pendingIn_cons (head : Generation) (rest : List Generation) (position : Int) :
    pendingIn (head :: rest) position =
      if head.position = position then head.pending else pendingIn rest position := by
  unfold pendingIn
  by_cases hhead : head.position = position <;> simp [hhead]

theorem pendingIn_of_not_mem {position : Int}
    (habsent : position ∉ generations.map Generation.position) :
    pendingIn generations position = 0 := by
  induction generations with
  | nil => rfl
  | cons head rest ih =>
    rw [List.map_cons, List.mem_cons, not_or] at habsent
    rw [pendingIn_cons, if_neg (Ne.symm habsent.1), ih habsent.2]

theorem pendingIn_append_singleton (position : Int)
    (habsent : position ∉ generations.map Generation.position) (pending : Nat) (other : Int) :
    pendingIn (generations ++ [⟨position, pending⟩]) other =
      if other = position then pending else pendingIn generations other := by
  induction generations with
  | nil =>
    rw [List.nil_append, pendingIn_cons]
    by_cases hother : other = position
    · simp [hother]
    · simp [hother, Ne.symm hother]
  | cons head rest ih =>
    rw [List.map_cons, List.mem_cons, not_or] at habsent
    rw [List.cons_append, pendingIn_cons, pendingIn_cons, ih habsent.2]
    by_cases hhead : head.position = other
    · have hother : other ≠ position := fun h ↦ habsent.1 (hhead.trans h).symm
      rw [if_pos hhead, if_pos hhead, if_neg hother]
    · rw [if_neg hhead, if_neg hhead]

/-- Assumes: a generation at the position whose pending uses are set. -/
theorem pendingIn_withPendingAt_self {position : Int}
    (hmem : position ∈ generations.map Generation.position) (pending : Nat) :
    pendingIn (generations.map (Generation.withPendingAt position pending)) position =
      pending := by
  induction generations with
  | nil => simp at hmem
  | cons head rest ih =>
    rw [List.map_cons, pendingIn_cons]
    by_cases hhead : head.position = position
    · simp [Generation.withPendingAt, hhead]
    · have hrest : position ∈ rest.map Generation.position := by
        simpa [Ne.symm hhead] using hmem
      simp [Generation.withPendingAt, hhead, ih hrest]

theorem pendingIn_withPendingAt_of_ne {position other : Int} (hne : other ≠ position)
    (pending : Nat) :
    pendingIn (generations.map (Generation.withPendingAt position pending)) other =
      pendingIn generations other := by
  induction generations with
  | nil => rfl
  | cons head rest ih =>
    rw [List.map_cons, pendingIn_cons, pendingIn_cons, ih]
    by_cases hhead : head.position = position
    · simp [Generation.withPendingAt, hhead, Ne.symm hne]
    · simp [Generation.withPendingAt, hhead]

theorem eq_of_position_eq (hordered : (generations.map Generation.position).Pairwise (· < ·))
    {first second : Generation} (hfirst : first ∈ generations) (hsecond : second ∈ generations)
    (hposition : first.position = second.position) : first = second :=
  List.inj_on_of_nodup_map (hordered.imp ne_of_lt) hfirst hsecond hposition

/-- The pending uses of a generation are found at its position. Assumes: generations in the order of
their positions. -/
theorem pendingIn_of_mem (hordered : (generations.map Generation.position).Pairwise (· < ·))
    {generation : Generation} (hmem : generation ∈ generations) :
    pendingIn generations generation.position = generation.pending := by
  induction generations with
  | nil => simp at hmem
  | cons head rest ih =>
    rw [pendingIn_cons]
    rw [List.map_cons, List.pairwise_cons] at hordered
    rcases List.mem_cons.mp hmem with rfl | hrest
    · rw [if_pos rfl]
    · have hlt := hordered.1 _ (List.mem_map_of_mem hrest)
      rw [if_neg (ne_of_lt hlt), ih hordered.2 hrest]

/-- The generation that the reverse scan finds is the one with the greatest position at or below the
given one. Assumes: generations in the order of their positions. -/
theorem lastNotAfter_eq_some_iff
    (hordered : (generations.map Generation.position).Pairwise (· < ·)) {position : Int}
    {generation : Generation} :
    Ledger.lastNotAfter position generations = some generation ↔
      generation ∈ generations ∧ generation.position ≤ position ∧
        ∀ other ∈ generations, other.position ≤ position →
          other.position ≤ generation.position := by
  have hgreatest : ∀ found, Ledger.lastNotAfter position generations = some found →
      found ∈ generations ∧ found.position ≤ position ∧
        ∀ other ∈ generations, other.position ≤ position → other.position ≤ found.position := by
    intro found hfound
    unfold Ledger.lastNotAfter at hfound
    obtain ⟨hle, later, earlier, hsplit, hlater⟩ := List.find?_eq_some_iff_append.mp hfound
    have hlist : generations = earlier.reverse ++ found :: later.reverse := by
      rw [← List.reverse_reverse generations, hsplit]
      simp
    refine ⟨by rw [hlist]; simp, by simpa using hle, ?_⟩
    intro other hother hbelow
    rw [hlist, List.map_append, List.map_cons, List.pairwise_append] at hordered
    rw [hlist, List.mem_append, List.mem_cons] at hother
    rcases hother with hearlier | rfl | hlate
    · exact le_of_lt (hordered.2.2 _ (List.mem_map_of_mem hearlier) _ (List.mem_cons_self ..))
    · exact le_refl _
    · have hnot := hlater other (List.mem_reverse.mp hlate)
      simp only [Bool.not_eq_true', decide_eq_false_iff_not] at hnot
      exact absurd hbelow hnot
  constructor
  · exact hgreatest generation
  · rintro ⟨hmem, hle, hmax⟩
    cases hfound : Ledger.lastNotAfter position generations with
    | none =>
      rw [Ledger.lastNotAfter, List.find?_eq_none] at hfound
      simpa [hle] using hfound generation (List.mem_reverse.mpr hmem)
    | some found =>
      obtain ⟨hfoundMem, hfoundLe, hfoundMax⟩ := hgreatest found hfound
      have hposition : found.position = generation.position :=
        le_antisymm (hmax found hfoundMem hfoundLe) (hfoundMax generation hmem hle)
      rw [eq_of_position_eq hordered hfoundMem hmem hposition]

theorem lastNotAfter_eq_none_iff {position : Int} :
    Ledger.lastNotAfter position generations = none ↔
      ∀ generation ∈ generations, position < generation.position := by
  simp [Ledger.lastNotAfter]

@[simp] theorem map_position_withPendingAt (position : Int) (pending : Nat) :
    (generations.map (Generation.withPendingAt position pending)).map Generation.position =
      generations.map Generation.position := by
  rw [List.map_map]
  refine List.map_congr_left fun generation _ ↦ ?_
  simp only [Function.comp_apply, Generation.withPendingAt]
  split_ifs <;> rfl

end Generations

/-! ### The ledger, by identifier and position -/

namespace Ledger

/-- The positions of the generations of an identifier, oldest first. -/
def positionsOf (ledger : Ledger) (ident : String) : List Int :=
  (ledger.generationsOf ident).map Generation.position

/-- The pending uses of the generation of an identifier at a position. -/
def pendingAt (ledger : Ledger) (ident : String) (position : Int) : Nat :=
  pendingIn (ledger.generationsOf ident) position

/-- The position of the generation that a use resolves to. -/
def origin (ledger : Ledger) (use : Use) : Option Int :=
  (ledger.visible? use.ident use.position).map Generation.position

/-- Every identifier has its generations in the order of their positions. -/
def Ordered (ledger : Ledger) : Prop := ∀ ident, (ledger.positionsOf ident).Pairwise (· < ·)

section Lookups

variable {ledger : Ledger}

@[simp] theorem positionsOf_fresh (log : Option (List Event)) (ident : String) :
    (fresh log).positionsOf ident = [] := rfl

theorem ordered_fresh (log : Option (List Event)) : (fresh log).Ordered := fun _ ↦ List.Pairwise.nil

@[simp] theorem positionsOf_record (event : Event) (ident : String) :
    (ledger.record event).positionsOf ident = ledger.positionsOf ident := rfl

@[simp] theorem pendingAt_record (event : Event) (ident : String) (position : Int) :
    (ledger.record event).pendingAt ident position = ledger.pendingAt ident position := rfl

@[simp] theorem positionsOf_setPending (ident : String) (position : Int) (pending : Nat)
    (other : String) :
    (ledger.setPending ident position pending).positionsOf other = ledger.positionsOf other := by
  by_cases hother : other = ident
  · rw [hother, positionsOf, generationsOf_setPending_self, map_position_withPendingAt]
    rfl
  · rw [positionsOf, generationsOf_setPending_of_ne _ hother]
    rfl

/-- Assumes: a generation whose pending uses are set. The pending uses of all others stay. -/
theorem pendingAt_setPending {ident : String} {position : Int}
    (hmem : position ∈ ledger.positionsOf ident) (pending : Nat) (other : String) (place : Int) :
    (ledger.setPending ident position pending).pendingAt other place =
      if other = ident ∧ place = position then pending else ledger.pendingAt other place := by
  by_cases hother : other = ident
  · subst other
    rw [pendingAt, generationsOf_setPending_self]
    by_cases hplace : place = position
    · subst place
      rw [if_pos ⟨rfl, rfl⟩, pendingIn_withPendingAt_self hmem]
    · rw [if_neg fun h ↦ hplace h.2, pendingIn_withPendingAt_of_ne hplace]
      rfl
  · rw [if_neg fun h ↦ hother h.1, pendingAt, generationsOf_setPending_of_ne _ hother]
    rfl

/-- What a use resolves to depends on the positions of the generations only. -/
theorem origin_eq_find? (use : Use) :
    ledger.origin use = (ledger.positionsOf use.ident).reverse.find? (· ≤ use.position) := by
  rw [origin, visible?, lastNotAfter, positionsOf, ← List.map_reverse, List.find?_map]
  rfl

theorem origin_congr {other : Ledger} {use : Use}
    (hpositions : other.positionsOf use.ident = ledger.positionsOf use.ident) :
    other.origin use = ledger.origin use := by
  rw [origin_eq_find?, origin_eq_find?, hpositions]

/-- The generation that a use resolves to. Assumes: the position of that generation. -/
theorem exists_visible_of_origin {use : Use} {position : Int}
    (horigin : ledger.origin use = some position) :
    ∃ generation, ledger.visible use.ident use.position = .ok generation ∧
      generation.position = position ∧ generation ∈ ledger.generationsOf use.ident := by
  obtain ⟨generation, hvisible, hposition⟩ := Option.map_eq_some_iff.mp horigin
  refine ⟨generation, by rw [visible, hvisible], hposition, ?_⟩
  exact List.mem_reverse.mp (List.mem_of_find?_eq_some hvisible)

theorem visible_of_origin_eq_none {use : Use} (horigin : ledger.origin use = none) :
    ledger.visible use.ident use.position =
      .error (.fault (.unknown use.ident (some use.position))) := by
  rw [visible, Option.map_eq_none_iff.mp horigin]

/-- A use resolves to the greatest position of its identifier at or below its own. Assumes:
generations in the order of their positions. -/
theorem Ordered.origin_eq_some_iff (hordered : ledger.Ordered) {use : Use} {position : Int} :
    ledger.origin use = some position ↔
      IsGreatest {place | place ∈ ledger.positionsOf use.ident ∧ place ≤ use.position}
        position := by
  constructor
  · intro horigin
    obtain ⟨generation, hvisible, rfl⟩ := Option.map_eq_some_iff.mp horigin
    obtain ⟨hmem, hle, hgreatest⟩ := (lastNotAfter_eq_some_iff (hordered use.ident)).mp hvisible
    refine ⟨⟨List.mem_map_of_mem hmem, hle⟩, ?_⟩
    rintro place ⟨hplace, hbelow⟩
    obtain ⟨other, hother, rfl⟩ := List.mem_map.mp hplace
    exact hgreatest other hother hbelow
  · rintro ⟨⟨hmem, hle⟩, hgreatest⟩
    obtain ⟨generation, hgeneration, rfl⟩ := List.mem_map.mp hmem
    have hvisible := (lastNotAfter_eq_some_iff (hordered use.ident)).mpr
      ⟨hgeneration, hle, fun other hother hbelow ↦
        hgreatest ⟨List.mem_map_of_mem hother, hbelow⟩⟩
    exact Option.map_eq_some_iff.mpr ⟨generation, hvisible, rfl⟩

/-- A use resolves to no generation when all of its identifier come later. -/
theorem origin_eq_none_iff {use : Use} :
    ledger.origin use = none ↔ ∀ place ∈ ledger.positionsOf use.ident, use.position < place := by
  rw [origin, Option.map_eq_none_iff, visible?, lastNotAfter_eq_none_iff, positionsOf,
    List.forall_mem_map]

end Lookups

end Ledger

end Handover
