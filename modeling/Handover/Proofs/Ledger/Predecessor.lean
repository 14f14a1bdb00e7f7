import Handover.Proofs.Ledger.Invariant

/-!
# The generation of a use by binary search

The ledger finds the generation that a use belongs to by a scan from the end. A binary search on the
positions (`bisect`) finds the same one, since after every run the positions of a name increase: it
divides the generations into those that are not later than the use and those that are
(`lt_bisect_iff`), and the last of the former is the predecessor of the use. Both searches fail
together, exactly if the name is unknown or all its generations are later
(`visible_eq_predecessor`).
-/

set_option autoImplicit false
set_option relaxedAutoImplicit false

namespace Handover

/-! ### Bisection -/

section Bisection

/-- How many of the positions, which increase, are at or below the given one, if it is at least
`low` and at most `high` of them. -/
def bisectFrom (positions : List Int) (position : Int) (low high : Nat)
    (hhigh : high ≤ positions.length) : Nat :=
  if hrange : low < high then
    let middle := (low + high) / 2
    if position < positions[middle] then
      bisectFrom positions position low middle (by omega)
    else bisectFrom positions position (middle + 1) high hhigh
  else low
termination_by high - low

/-- How many of the positions, which increase, are at or below the given one. -/
def bisect (positions : List Int) (position : Int) : Nat :=
  bisectFrom positions position 0 positions.length le_rfl

variable {positions : List Int} {position : Int}

theorem getElem_le_getElem (hordered : positions.Pairwise (· < ·)) {first second : Nat}
    (hle : first ≤ second) (hsecond : second < positions.length) :
    positions[first] ≤ positions[second] := by
  rcases hle.eq_or_lt with rfl | hlt
  · exact le_rfl
  · exact (List.pairwise_iff_getElem.mp hordered first second (hlt.trans hsecond) hsecond hlt).le

/-- The search keeps what is before `low` not later, and what is from `high` on later. -/
theorem lt_bisectFrom_iff (hordered : positions.Pairwise (· < ·)) (low high : Nat)
    (hhigh : high ≤ positions.length)
    (hbefore : ∀ place (hplace : place < positions.length), place < low →
      positions[place] ≤ position)
    (hafter : ∀ place (hplace : place < positions.length), high ≤ place →
      position < positions[place])
    (hrange : low ≤ high) (place : Nat) (hplace : place < positions.length) :
    place < bisectFrom positions position low high hhigh ↔ positions[place] ≤ position := by
  fun_induction bisectFrom positions position low high hhigh with
  | case1 low high hhigh hlt middle hlater ih =>
    refine ih hbefore (fun other hother hmiddle ↦ ?_) (by omega)
    exact hlater.trans_le (getElem_le_getElem hordered hmiddle hother)
  | case2 low high hhigh hlt middle hlater ih =>
    refine ih (fun other hother hmiddle ↦ ?_) hafter (by omega)
    exact (getElem_le_getElem hordered (by omega) (by omega)).trans (not_lt.mp hlater)
  | case3 low high hhigh hempty =>
    refine ⟨hbefore place hplace, fun hle ↦ ?_⟩
    by_contra hlow
    exact absurd hle (not_le.mpr (hafter place hplace (by omega)))

/-- A place is before the result exactly if the position there is not later. -/
theorem lt_bisect_iff (hordered : positions.Pairwise (· < ·)) {place : Nat}
    (hplace : place < positions.length) :
    place < bisect positions position ↔ positions[place] ≤ position :=
  lt_bisectFrom_iff hordered 0 positions.length le_rfl
    (fun _ _ hlow ↦ absurd hlow (Nat.not_lt_zero _))
    (fun _ hlength hhigh ↦ absurd hlength (Nat.not_lt.mpr hhigh)) (Nat.zero_le _) place hplace

theorem bisectFrom_le_length (low high : Nat) (hhigh : high ≤ positions.length)
    (hrange : low ≤ high) : bisectFrom positions position low high hhigh ≤ positions.length := by
  fun_induction bisectFrom positions position low high hhigh with
  | case1 low high hhigh hlt middle hlater ih => exact ih (by omega)
  | case2 low high hhigh hlt middle hlater ih => exact ih (by omega)
  | case3 low high hhigh hempty => exact hrange.trans hhigh

end Bisection

/-! ### The predecessor -/

namespace Ledger

/-- The generation among some, oldest first, with the greatest position at or below the given one,
by bisection: the last of those that are not later. -/
def lastByBisection (position : Int) (generations : List Generation) : Option Generation :=
  match bisect (generations.map Generation.position) position with
  | 0 => none
  | last + 1 => generations[last]?

/-- The generation that a use belongs to, found by bisection, or the fault that there is none. -/
def visibleByBisection (ledger : Ledger) (ident : String) (position : Int) :
    Except Refusal Generation :=
  match lastByBisection position (ledger.generationsOf ident) with
  | some generation => .ok generation
  | none => .error (.fault (.unknown ident (some position)))

section Predecessor

variable {ledger : Ledger} {ident : String} {position : Int}

theorem visible_eq_ok_iff {generation : Generation} :
    ledger.visible ident position = .ok generation ↔
      ledger.visible? ident position = some generation := by
  unfold visible
  cases ledger.visible? ident position <;> simp

theorem visible_eq_error_iff {refusal : Refusal} :
    ledger.visible ident position = .error refusal ↔
      refusal = .fault (.unknown ident (some position)) ∧
        ledger.visible? ident position = none := by
  unfold visible
  cases ledger.visible? ident position <;> simp [eq_comm]

/-- Bisection finds what the scan finds. Assumes: generations in the order of their positions. -/
theorem lastByBisection_eq {generations : List Generation}
    (hordered : (generations.map Generation.position).Pairwise (· < ·)) :
    lastByBisection position generations = lastNotAfter position generations := by
  have hcount (place : Nat) (hplace : place < generations.length) :
      place < bisect (generations.map Generation.position) position ↔
        generations[place].position ≤ position := by
    have hlength : place < (generations.map Generation.position).length := by simpa using hplace
    rw [lt_bisect_iff hordered hlength, List.getElem_map]
  have hbound : bisect (generations.map Generation.position) position ≤ generations.length :=
    (bisectFrom_le_length 0 _ le_rfl (Nat.zero_le _)).trans (List.length_map _).le
  unfold lastByBisection
  generalize bisect (generations.map Generation.position) position = count at hcount hbound
  cases count with
  | zero =>
    refine (lastNotAfter_eq_none_iff.mpr fun generation hgeneration ↦ ?_).symm
    obtain ⟨place, hplace, rfl⟩ := List.getElem_of_mem hgeneration
    exact not_le.mp fun hle ↦ absurd ((hcount place hplace).mpr hle) (Nat.not_lt_zero _)
  | succ last =>
    have hlast : last < generations.length := hbound
    refine (List.getElem?_eq_getElem hlast).trans
      ((lastNotAfter_eq_some_iff hordered).mpr ⟨List.getElem_mem hlast,
        (hcount last hlast).mp (Nat.lt_succ_self _), fun other hother hle ↦ ?_⟩).symm
    obtain ⟨place, hplace, rfl⟩ := List.getElem_of_mem hother
    have hbefore : place ≤ last := Nat.lt_succ_iff.mp ((hcount place hplace).mpr hle)
    rw [← List.getElem_map Generation.position, ← List.getElem_map Generation.position]
    exact getElem_le_getElem hordered hbefore (by simpa using hlast)

/-- After every run, a use belongs to the one generation of its name with the greatest position at
or below its own. It is refused as unknown exactly if its name has never been produced or has been
produced only later; and a binary search on the positions finds the same. -/
theorem visible_eq_predecessor (log : Option (List Event)) (calls : List Call) (name : String)
    (position : Int) :
    let ledger := (fresh log).after calls
    let generations := ledger.generationsOf (sanitize name)
    (∀ generation, ledger.visible (sanitize name) position = .ok generation ↔
      generation ∈ generations ∧ generation.position ≤ position ∧
        ∀ other ∈ generations, other.position ≤ position → other ≠ generation →
          other.position < generation.position) ∧
    (∀ refusal, ledger.visible (sanitize name) position = .error refusal ↔
      refusal = .fault (.unknown (sanitize name) (some position)) ∧
        (sanitize name ∉ ledger.names ∨
          generations ≠ [] ∧ ∀ generation ∈ generations, position < generation.position)) ∧
    ledger.visibleByBisection (sanitize name) position =
      ledger.visible (sanitize name) position := by
  intro ledger generations
  have hkept : ledger.Kept := ((kept_fresh log).after calls).1
  have hordered : (generations.map Generation.position).Pairwise (· < ·) :=
    hkept.ordered (sanitize name)
  refine ⟨fun generation ↦ ?_, fun refusal ↦ ?_, ?_⟩
  · rw [visible_eq_ok_iff, visible?, lastNotAfter_eq_some_iff hordered]
    refine and_congr_right fun hmem ↦ and_congr_right fun _ ↦ forall₃_congr fun other hother _ ↦ ?_
    -- Generations of one name at one position are one generation.
    constructor
    · intro hle hne
      exact hle.lt_of_ne fun heq ↦ hne (eq_of_position_eq hordered hother hmem heq)
    · intro hlt
      by_cases hne : other = generation
      · rw [hne]
      · exact (hlt hne).le
  · rw [visible_eq_error_iff, visible?, lastNotAfter_eq_none_iff]
    refine and_congr_right fun _ ↦ ?_
    constructor
    · intro hlater
      by_cases hname : sanitize name ∈ ledger.names
      · exact .inr ⟨hkept.produced _ hname, hlater⟩
      · exact .inl hname
    · rintro (hname | ⟨-, hlater⟩) generation hgeneration
      · exact absurd (mem_names_of_mem_positionsOf (List.mem_map_of_mem hgeneration)) hname
      · exact hlater generation hgeneration
  · rw [visibleByBisection, lastByBisection_eq hordered]
    rfl

end Predecessor

end Ledger

end Handover
