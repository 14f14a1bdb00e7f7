import Handover.Proofs.Ledger.Calls
import Handover.Proofs.OrderedMap
import Handover.Proofs.Text.Separators
import Mathlib.Data.List.Infix

/-!
# The invariant of a ledger

What holds of a ledger after every run of calls, refused ones included. The ledger is well kept
(`Ledger.Kept`): its names are identifier forms with generations in the order of their positions,
and its mark is the last of them all. Later in a run it has only moved forward (`Ledger.Advances`):
the phase never goes back, no generation disappears, and counters only grow while building and only
shrink while emitting. Each change keeps both (`Kept.change`, `Change.advances`), and a refused call
changes nothing (`kept_after`).
-/

set_option autoImplicit false
set_option relaxedAutoImplicit false

namespace Handover

namespace Ledger

/-- A ledger as the calls keep it. -/
structure Kept (ledger : Ledger) : Prop where
  /-- Every name is stored once. -/
  nodup : ledger.names.Nodup
  /-- Every stored name is an identifier form. -/
  sanitized : ∀ ident ∈ ledger.names, sanitize ident = ident
  /-- Every stored name has a generation. -/
  produced : ∀ ident ∈ ledger.names, ledger.generationsOf ident ≠ []
  /-- The generations of a name stand in the order of their positions. -/
  ordered : ledger.Ordered
  /-- The mark is the greatest position of all generations. -/
  marked : ∀ last, ledger.lastProduced = some last →
    IsGreatest {place | ∃ ident, place ∈ ledger.positionsOf ident} last
  /-- There is no mark when there is no generation. -/
  unmarked : ledger.lastProduced = none → ∀ ident, ledger.positionsOf ident = []

/-- How a ledger compares to what it is later in a run. -/
structure Advances (ledger next : Ledger) : Prop where
  /-- Generations are only added, after the others of their name. -/
  positions : ∀ ident, ledger.positionsOf ident <+: next.positionsOf ident
  /-- A counter never falls while the ledger is building. -/
  building : next.phase = .building → ∀ ident place,
    ledger.pendingAt ident place ≤ next.pendingAt ident place
  /-- Once emitting, a ledger stays so, with the generations that it has. -/
  emitting : ledger.phase = .emitting → next.phase = .emitting ∧
    ∀ ident, next.positionsOf ident = ledger.positionsOf ident
  /-- A counter never grows while the ledger is emitting. -/
  draining : ledger.phase = .emitting → ∀ ident place,
    next.pendingAt ident place ≤ ledger.pendingAt ident place

section Kept

variable {ledger next : Ledger}

theorem kept_fresh (log : Option (List Event)) : (fresh log).Kept where
  nodup := List.nodup_nil
  sanitized := by simp [fresh, names, OrderedMap.keys]
  produced := by simp [fresh, names, OrderedMap.keys]
  ordered := ordered_fresh log
  marked := fun last hlast ↦ by cases hlast
  unmarked := fun _ _ ↦ rfl

theorem mem_names_iff {ident : String} :
    ident ∈ ledger.names ↔ ledger.producers.contains ident = true :=
  OrderedMap.contains_eq_true_iff.symm

theorem mem_names_of_mem_positionsOf {ident : String} {place : Int}
    (hplace : place ∈ ledger.positionsOf ident) : ident ∈ ledger.names := by
  rw [mem_names_iff, OrderedMap.contains_eq_isSome]
  cases hfind : ledger.producers.find? ident with
  | some generations => rfl
  | none => simp [positionsOf, generationsOf, hfind] at hplace

theorem mem_names_of_visible {ident : String} {position : Int} {generation : Generation}
    (hvisible : ledger.visible? ident position = some generation) : ident ∈ ledger.names :=
  mem_names_of_mem_positionsOf
    (List.mem_map_of_mem (List.mem_reverse.mp (List.mem_of_find?_eq_some hvisible)))

theorem mem_names_extended {ident other : String} {position : Int} :
    other ∈ (extended ledger ident position).names ↔ other = ident ∨ other ∈ ledger.names := by
  rw [mem_names_iff, mem_names_iff]
  exact OrderedMap.contains_insert ..

theorem names_setPending {ident : String} (hmem : ident ∈ ledger.names) (position : Int)
    (pending : Nat) : (ledger.setPending ident position pending).names = ledger.names := by
  rw [names, setPending, OrderedMap.keys_insert, if_pos (mem_names_iff.mp hmem)]
  rfl

/-- Changing one counter of a well kept ledger keeps it so. -/
theorem Kept.setPending (hkept : ledger.Kept) {ident : String} (hmem : ident ∈ ledger.names)
    (position : Int) (pending : Nat) (event : Event) :
    ((ledger.setPending ident position pending).record event).Kept := by
  have hsame : SameGenerations ledger ((ledger.setPending ident position pending).record event) :=
    sameGenerations_setPending ident position pending event
  have hnames : ((ledger.setPending ident position pending).record event).names = ledger.names :=
    names_setPending hmem position pending
  refine ⟨hnames ▸ hkept.nodup, hnames ▸ hkept.sanitized, ?_, hsame.ordered hkept.ordered, ?_, ?_⟩
  · intro other hother hnil
    rw [hnames] at hother
    have hpositions := hsame.positionsOf other
    rw [positionsOf, hnil] at hpositions
    exact hkept.produced other hother (List.map_eq_nil_iff.mp hpositions.symm)
  · simp only [hsame.positionsOf]
    exact hkept.marked
  · simp only [hsame.positionsOf]
    exact hkept.unmarked

theorem positionsOf_extended (ident other : String) (position : Int) :
    (extended ledger ident position).positionsOf other =
      if other = ident then ledger.positionsOf other ++ [position]
      else ledger.positionsOf other := by
  split_ifs with hother
  · rw [hother, positionsOf, generationsOf_extended_self, List.map_append]
    rfl
  · rw [positionsOf, generationsOf_extended_of_ne hother]
    rfl

/-- A new generation that no producer is later than keeps a ledger well kept. -/
theorem Kept.extended (hkept : ledger.Kept) {ident : String} (hident : sanitize ident = ident)
    {position : Int} (habsent : position ∉ ledger.positionsOf ident)
    (hlast : ∀ last, ledger.lastProduced = some last → last ≤ position) (event : Event) :
    ((ledger.extended ident position).record event).Kept := by
  have hbefore : ∀ other place, place ∈ ledger.positionsOf other → place ≤ position := by
    intro other place hplace
    cases hproduced : ledger.lastProduced with
    | none =>
      rw [hkept.unmarked hproduced other] at hplace
      exact absurd hplace List.not_mem_nil
    | some last =>
      exact ((hkept.marked last hproduced).2 ⟨other, hplace⟩).trans (hlast last hproduced)
  refine ⟨OrderedMap.nodup_keys_insert hkept.nodup _ _, ?_, ?_, ?_, ?_, ?_⟩
  · intro other hother
    rcases mem_names_extended.mp hother with rfl | hother
    · exact hident
    · exact hkept.sanitized other hother
  · intro other hother
    rw [generationsOf_record]
    by_cases hne : other = ident
    · rw [hne, generationsOf_extended_self]
      exact List.append_ne_nil_of_right_ne_nil _ (List.cons_ne_nil _ _)
    · rw [generationsOf_extended_of_ne hne]
      exact hkept.produced other ((mem_names_extended.mp hother).resolve_left hne)
  · intro other
    rw [positionsOf_record, positionsOf_extended]
    split_ifs with hother
    · rw [hother, List.pairwise_append]
      refine ⟨hkept.ordered ident, List.pairwise_singleton _ _, ?_⟩
      intro place hplace last hmem
      rw [List.mem_singleton] at hmem
      rw [hmem]
      refine lt_of_le_of_ne (hbefore ident place hplace) ?_
      rintro rfl
      exact habsent hplace
    · exact hkept.ordered other
  · rintro last hmark
    obtain rfl : position = last := Option.some.inj hmark
    constructor
    · refine ⟨ident, ?_⟩
      rw [positionsOf_record, positionsOf_extended, if_pos rfl]
      exact List.mem_append_right _ (List.mem_cons_self ..)
    · rintro place ⟨other, hplace⟩
      rw [positionsOf_record, positionsOf_extended] at hplace
      split_ifs at hplace with hother
      · rcases List.mem_append.mp hplace with hplace | hplace
        · exact hbefore other place hplace
        · exact le_of_eq (List.mem_singleton.mp hplace)
      · exact hbefore other place hplace
  · intro hnone
    cases hnone

/-- Every change keeps a ledger well kept. -/
theorem Kept.change (hkept : ledger.Kept) {call : Call} {answer : Option Decision}
    (hchange : ledger.Change call answer next) : next.Kept := by
  cases hchange with
  | again _ _ => exact hkept
  | opened _ habsent hlast => exact hkept.extended (sanitize_sanitize _) habsent hlast _
  | registered _ hvisible => exact hkept.setPending (mem_names_of_visible hvisible) _ _ _
  | closed _ =>
    exact ⟨hkept.nodup, hkept.sanitized, hkept.produced, hkept.ordered, hkept.marked,
      hkept.unmarked⟩
  | resolved _ hvisible _ => exact hkept.setPending (mem_names_of_visible hvisible) _ _ _

end Kept

/-! ### Later in a run -/

section Advances

variable {ledger next : Ledger}

theorem Advances.refl (ledger : Ledger) : ledger.Advances ledger where
  positions := fun _ ↦ List.prefix_rfl
  building := fun _ _ _ ↦ le_refl _
  emitting := fun hphase ↦ ⟨hphase, fun _ ↦ rfl⟩
  draining := fun _ _ _ ↦ le_refl _

/-- A ledger that is building has been building before. -/
theorem Advances.phase_eq_building (hadvances : ledger.Advances next)
    (hphase : next.phase = .building) : ledger.phase = .building := by
  cases hbefore : ledger.phase with
  | building => rfl
  | emitting =>
    rw [(hadvances.emitting hbefore).1] at hphase
    cases hphase

theorem Advances.trans {last : Ledger} (hfirst : ledger.Advances next)
    (hsecond : next.Advances last) : ledger.Advances last where
  positions := fun ident ↦ (hfirst.positions ident).trans (hsecond.positions ident)
  building := by
    intro hphase ident place
    have hnext := hfirst.building (hsecond.phase_eq_building hphase) ident place
    exact hnext.trans (hsecond.building hphase ident place)
  emitting := by
    intro hphase
    obtain ⟨hnext, hpositions⟩ := hfirst.emitting hphase
    obtain ⟨hlast, hothers⟩ := hsecond.emitting hnext
    exact ⟨hlast, fun ident ↦ (hothers ident).trans (hpositions ident)⟩
  draining := fun hphase ident place ↦
    (hsecond.draining (hfirst.emitting hphase).1 ident place).trans
      (hfirst.draining hphase ident place)

theorem pendingAt_extended {ident : String} {position : Int}
    (habsent : position ∉ ledger.positionsOf ident) (other : String) (place : Int) :
    (extended ledger ident position).pendingAt other place = ledger.pendingAt other place := by
  rw [pendingAt]
  by_cases hother : other = ident
  · rw [hother, generationsOf_extended_self, pendingIn_append_singleton _ habsent]
    split_ifs with hplace
    · rw [hplace, pendingAt, pendingIn_of_not_mem habsent]
    · rfl
  · rw [generationsOf_extended_of_ne hother]
    rfl

/-- The counter of the generation that a use belongs to, after it is set. -/
theorem pendingAt_setPending_of_visible (hordered : ledger.Ordered) {ident : String}
    {position : Int} {generation : Generation}
    (hvisible : ledger.visible? ident position = some generation) (pending : Nat) :
    ledger.pendingAt ident generation.position = generation.pending ∧
      ∀ other place, (ledger.setPending ident generation.position pending).pendingAt other place =
        if other = ident ∧ place = generation.position then pending
        else ledger.pendingAt other place := by
  have hmem := List.mem_reverse.mp (List.mem_of_find?_eq_some hvisible)
  exact ⟨pendingIn_of_mem (hordered ident) hmem,
    pendingAt_setPending (List.mem_map_of_mem hmem) pending⟩

/-- A change while building that adds generations or pending uses moves a ledger forward. -/
theorem advances_of_building (hphase : ledger.phase = .building)
    (hpositions : ∀ ident, ledger.positionsOf ident <+: next.positionsOf ident)
    (hpending : ∀ ident place, ledger.pendingAt ident place ≤ next.pendingAt ident place) :
    ledger.Advances next where
  positions := hpositions
  building := fun _ ↦ hpending
  emitting := fun hemitting ↦ absurd (hphase.symm.trans hemitting) Phase.noConfusion
  draining := fun hemitting ↦ absurd (hphase.symm.trans hemitting) Phase.noConfusion

/-- Every change of a well kept ledger moves it forward. -/
theorem Change.advances (hkept : ledger.Kept) {call : Call} {answer : Option Decision}
    (hchange : ledger.Change call answer next) : ledger.Advances next := by
  cases hchange with
  | again _ _ => exact Advances.refl ledger
  | opened hphase habsent _ =>
    refine advances_of_building hphase (fun ident ↦ ?_) fun ident place ↦ ?_
    · rw [positionsOf_record, positionsOf_extended]
      split_ifs
      · exact List.prefix_append _ _
      · exact List.prefix_rfl
    · rw [pendingAt_record, pendingAt_extended habsent]
  | @registered name position generation hphase hvisible =>
    obtain ⟨hbefore, hafter⟩ := pendingAt_setPending_of_visible hkept.ordered hvisible
      (generation.pending + 1)
    refine advances_of_building hphase (fun ident ↦ ?_) fun ident place ↦ ?_
    · rw [positionsOf_record, positionsOf_setPending]
    · rw [pendingAt_record, hafter]
      split_ifs with hplace
      · rw [hplace.1, hplace.2, hbefore]
        exact Nat.le_succ _
      · exact le_refl _
  | closed hphase =>
    exact advances_of_building hphase (fun _ ↦ List.prefix_rfl) fun _ _ ↦ le_refl _
  | @resolved name position generation pending hphase hvisible hpending =>
    obtain ⟨hbefore, hafter⟩ := pendingAt_setPending_of_visible hkept.ordered hvisible pending
    refine ⟨fun ident ↦ ?_, fun hbuilding ↦ ?_, fun _ ↦ ⟨hphase, fun ident ↦ ?_⟩,
      fun _ ident place ↦ ?_⟩
    · rw [positionsOf_record, positionsOf_setPending]
    · exact absurd (hphase.symm.trans hbuilding) Phase.noConfusion
    · rw [positionsOf_record, positionsOf_setPending]
    · rw [pendingAt_record, hafter]
      split_ifs with hplace
      · rw [hplace.1, hplace.2, hbefore, hpending]
        exact Nat.le_succ _
      · exact le_refl _

/-- A run keeps a ledger well kept and moves it forward. -/
theorem Kept.after (hkept : ledger.Kept) (calls : List Call) :
    (ledger.after calls).Kept ∧ ledger.Advances (ledger.after calls) := by
  refine after_induction (motive := fun reached ↦ reached.Kept ∧ ledger.Advances reached)
    ⟨hkept, Advances.refl ledger⟩ ?_ calls
  rintro reached call answer next ⟨hreached, hadvances⟩ hchange
  exact ⟨hreached.change hchange, hadvances.trans (hchange.advances hreached)⟩

end Advances

/-- The invariant of a ledger. After every run on a fresh ledger it is well kept, whatever is called
from there on moves it forward, and each call either makes its change and no other or is refused
and leaves the ledger as it is. -/
theorem kept_after (log : Option (List Event)) (calls later : List Call) :
    let ledger := (fresh log).after calls
    ledger.Kept ∧ ledger.Advances (ledger.after later) ∧
      ∀ call, (∃ answer next, ledger.attempt call = .ok (answer, next) ∧
          call.write ledger = (.ok answer, next) ∧ ledger.Change call answer next) ∨
        ∃ refusal, ledger.attempt call = .error refusal ∧
          call.write ledger = (.error refusal, ledger) := by
  have hkept := ((kept_fresh log).after calls).1
  exact ⟨hkept, (hkept.after later).2, fun call ↦ call.change_or_refused _⟩

end Ledger

end Handover
