import Handover.Proofs.Ledger.Invariant
import Mathlib.Data.List.Induction

/-!
# The protocol of two phases

Registered uses may be resolved in any order. A build phase in which every call is accepted, and in
which no producer opens a generation at or before a registered use of its identifier
(`Ledger.OpensLate`), leaves a ledger that owes the registered uses, each of them to the generation
that it belonged to when it was registered (`owes_of_registered`, `registeredTo`). Resolved one by
one in any order, every use is accepted, each generation hands its value over at its last use and at
no other (`Ownership.turns`), and then nothing is left to resolve (`resolved_in_any_order`).
-/

set_option autoImplicit false
set_option relaxedAutoImplicit false

namespace Handover

/-- What a generation with a number of uses decides for them, in the order in which they are
resolved: all but the last leave the value intact, and the last one hands it over. -/
def Ownership.turns : Nat → List Ownership
  | 0 => []
  | count + 1 => List.replicate count .duplicate ++ [.move]

theorem turns_succ (count : Nat) :
    Ownership.turns (count + 1) =
      (if 0 < count then Ownership.duplicate else .move) :: Ownership.turns count := by
  cases count with
  | zero => rfl
  | succ count => rfl

/-- The decisions for the uses of one generation are its turns. -/
theorem ownership_of_decisions (origin : Use → Option Int) (ident : String) (place : Int)
    (uses : List Use) :
    ((Use.decisions origin [] uses).filter fun decision ↦
        decision.name = ident ∧ origin decision.use = some place).map Decision.ownership =
      Ownership.turns (uses.countP fun use ↦ use.ident = ident ∧ origin use = some place) := by
  induction uses with
  | nil => rfl
  | cons use rest ih =>
    rw [Use.decisions, List.append_nil, List.filter_cons, List.countP_cons]
    by_cases hcharged : use.ident = ident ∧ origin use = some place
    · have hdecision : (use.decision origin rest).name = ident ∧
          origin (use.decision origin rest).use = some place := hcharged
      rw [if_pos (decide_eq_true hdecision), if_pos (decide_eq_true hcharged), List.map_cons, ih,
        turns_succ]
      congr 1
      have hshared : (∃ other ∈ rest, Use.Shares origin other use) ↔
          0 < rest.countP fun use ↦ use.ident = ident ∧ origin use = some place := by
        rw [List.countP_pos_iff]
        simp only [Use.Shares, hcharged.1, hcharged.2, decide_eq_true_eq]
      show (if ∃ other ∈ rest, Use.Shares origin other use then Ownership.duplicate else .move) = _
      exact if_congr hshared rfl rfl
    · have hdecision : ¬ ((use.decision origin rest).name = ident ∧
          origin (use.decision origin rest).use = some place) := hcharged
      rw [if_neg (by simpa using hdecision), if_neg (by simpa using hcharged), ih, Nat.add_zero]

namespace Ledger

/-- The use that a call registers, with its name as it is passed. -/
def Call.registered? : Call → Option (String × Int)
  | futureUse name position => some (name, position)
  | _ => none

/-- The uses that some calls register, in order, with their names as they are passed. -/
def registered (calls : List Call) : List (String × Int) := calls.filterMap Call.registered?

/-- The use of a name at a position. -/
def useOf (entry : String × Int) : Use := ⟨sanitize entry.1, entry.2⟩

/-- Whether a call registers a use of a generation, as a number. -/
def Call.charge (ledger : Ledger) (ident : String) (place : Int) : Call → Nat
  | futureUse name position =>
    if sanitize name = ident ∧ ledger.origin ⟨sanitize name, position⟩ = some place then 1 else 0
  | _ => 0

/-- How many uses of a generation some calls register: a use counts for the generation that it
belongs to when it is registered. -/
def registeredTo (ident : String) (place : Int) : Ledger → List Call → Nat
  | _, [] => 0
  | ledger, call :: rest =>
    call.charge ledger ident place + registeredTo ident place (call.write ledger).2 rest

/-- A producer opens its generation late when it stands after the uses of its identifier that are
registered before it, unless the generation is there already. -/
def Call.OpensLate (start : Ledger) (before : List Call) : Call → Prop
  | produce name position => position ∉ (start.after before).positionsOf (sanitize name) →
    ∀ entry ∈ registered before, sanitize entry.1 = sanitize name → entry.2 < position
  | _ => True

/-- Every producer among some calls opens its generation late. -/
def OpensLate (start : Ledger) (calls : List Call) : Prop :=
  ∀ before call after, calls = before ++ call :: after → call.OpensLate start before

instance (start : Ledger) (before : List Call) : (call : Call) →
    Decidable (call.OpensLate start before)
  | .produce _ _ => inferInstanceAs (Decidable (_ → _))
  | .futureUse _ _ | .beginEmit | .resolve _ _ => inferInstanceAs (Decidable True)

theorem opensLate_iff {start : Ledger} {calls : List Call} :
    OpensLate start calls ↔
      ∀ index : Fin calls.length, calls[index].OpensLate start (calls.take index) := by
  constructor
  · intro hlate index
    exact hlate (calls.take index) calls[index] (calls.drop (index + 1)) (by simp)
  · rintro hlate before call after rfl
    simpa using hlate ⟨before.length, by simp⟩

instance (start : Ledger) (calls : List Call) : Decidable (OpensLate start calls) :=
  decidable_of_iff _ opensLate_iff.symm

/-! ### The build phase -/

section Build

variable {ledger next : Ledger} {call : Call} {calls : List Call} {answer : Option Decision}
  {uses : List Use}

theorem origin_of_visible {ident : String} {position : Int} {generation : Generation}
    (hvisible : ledger.visible? ident position = some generation) :
    ledger.origin ⟨ident, position⟩ = some generation.position :=
  Option.map_eq_some_iff.mpr ⟨generation, hvisible, rfl⟩

/-- While building, a change adds to the counters what its call charges. -/
theorem pendingAt_of_change (hkept : ledger.Kept) (hchange : ledger.Change call answer next)
    (hphase : next.phase = .building) (ident : String) (place : Int) :
    next.pendingAt ident place = ledger.pendingAt ident place + call.charge ledger ident place := by
  cases hchange with
  | again _ _ => rfl
  | opened _ habsent _ => exact pendingAt_extended habsent ident place
  | @registered name position generation _ hvisible =>
    obtain ⟨hbefore, hafter⟩ := pendingAt_setPending_of_visible hkept.ordered hvisible
      (generation.pending + 1)
    rw [pendingAt_record, hafter, Call.charge, origin_of_visible hvisible]
    by_cases hplace : ident = sanitize name ∧ place = generation.position
    · rw [if_pos hplace, if_pos ⟨hplace.1.symm, congrArg some hplace.2.symm⟩, hplace.1, hplace.2,
        hbefore]
    · rw [if_neg hplace, if_neg fun h ↦ hplace ⟨h.1.symm, (Option.some.inj h.2).symm⟩]
      rfl
  | closed _ => cases hphase
  | resolved hemitting _ _ => exact absurd (hemitting.symm.trans hphase) Phase.noConfusion

/-- While building, a change adds the use that its call registers to what a ledger owes. Assumes: a
generation that is opened stands after the uses of its identifier. -/
theorem Owes.change (hkept : ledger.Kept) (howes : ledger.Owes uses)
    (hchange : ledger.Change call answer next) (hphase : next.phase = .building)
    (hlate : ∀ name position, call = .produce name position →
      position ∉ ledger.positionsOf (sanitize name) →
        ∀ use ∈ uses, use.ident = sanitize name → use.position < position) :
    next.Owes (uses ++ (call.registered?.map useOf).toList) := by
  have hpending := pendingAt_of_change hkept hchange hphase
  cases hchange with
  | again _ _ => exact (List.append_nil uses).symm ▸ howes
  | @opened name position _ habsent hlast =>
    refine (List.append_nil uses).symm ▸
      howes.produce (positionsOf_extended (sanitize name) · position) hpending ?_
        (hlate name position rfl habsent)
    intro place hplace
    refine lt_of_le_of_ne ?_ fun h ↦ habsent (h ▸ hplace)
    cases hproduced : ledger.lastProduced with
    | none =>
      rw [hkept.unmarked hproduced] at hplace
      exact absurd hplace List.not_mem_nil
    | some last =>
      exact ((hkept.marked last hproduced).2 ⟨_, hplace⟩).trans (hlast last hproduced)
  | @registered name position generation _ hvisible =>
    have horigin := origin_of_visible hvisible
    have hadded := howes.futureUse (sameGenerations_setPending _ _ _ _) horigin fun ident place ↦ by
      rw [hpending, Call.charge, horigin]
      congr 1
      exact if_congr ⟨fun h ↦ ⟨h.1.symm, (Option.some.inj h.2).symm⟩,
        fun h ↦ ⟨h.1.symm, congrArg some h.2.symm⟩⟩ rfl rfl
    exact hadded.perm (List.perm_append_singleton _ _).symm
  | closed _ => cases hphase
  | resolved hemitting _ _ => exact absurd (hemitting.symm.trans hphase) Phase.noConfusion

/-- A run in which every call is accepted is a run, and each of its calls makes a change. -/
theorem changes_of_mapM {answers : List (Option Decision)}
    (hcalls : (calls.mapM Call.write : Writing _) ledger = (.ok answers, next)) :
    next = ledger.after calls ∧ ∀ before call after, calls = before ++ call :: after →
      ∃ answer, (ledger.after before).Change call answer (ledger.after (before ++ [call])) := by
  induction calls generalizing ledger answers with
  | nil =>
    rw [List.mapM_nil] at hcalls
    cases hcalls
    exact ⟨rfl, by simp⟩
  | cons call rest ih =>
    rw [List.mapM_cons, Writing.run_bind] at hcalls
    rcases call.change_or_refused ledger with
      ⟨answer, reached, _, hwrite, hchange⟩ | ⟨_, _, hwrite⟩
    · rw [hwrite] at hcalls
      simp only [Writing.run_bind] at hcalls
      cases hrest : (rest.mapM Call.write : Writing _) reached with
      | mk result final =>
        rw [hrest] at hcalls
        cases result with
        | error _ => cases hcalls
        | ok others =>
          cases hcalls
          obtain ⟨hfinal, hchanges⟩ := ih hrest
          have hafter : ∀ more, ledger.after (call :: more) = reached.after more := by
            intro more
            rw [after_cons, hwrite]
          refine ⟨by rw [hfinal, hafter], ?_⟩
          intro before other after hsplit
          cases before with
          | nil =>
            obtain ⟨rfl, rfl⟩ := List.cons.inj hsplit
            exact ⟨answer, by rwa [List.nil_append, hafter]⟩
          | cons head tail =>
            obtain ⟨rfl, htail⟩ := List.cons.inj hsplit
            rw [List.cons_append, hafter, hafter]
            exact hchanges tail other after htail
    · rw [hwrite] at hcalls
      cases hcalls

theorem after_append (calls others : List Call) :
    ledger.after (calls ++ others) = (ledger.after calls).after others := List.foldl_append

theorem registeredTo_append_singleton (ident : String) (place : Int) (calls : List Call)
    (call : Call) :
    registeredTo ident place ledger (calls ++ [call]) =
      registeredTo ident place ledger calls + call.charge (ledger.after calls) ident place := by
  induction calls generalizing ledger with
  | nil => exact Nat.add_comm _ _
  | cons head rest ih =>
    rw [List.cons_append, registeredTo, registeredTo, ih, after_cons, Nat.add_assoc]

/-- A build phase in which every call is accepted leaves a ledger that owes the registered uses,
each of them to the generation that it belonged to when it was registered. -/
theorem owes_of_registered {log : Option (List Event)} {calls : List Call}
    (hchanges : ∀ before call after, calls = before ++ call :: after → ∃ answer,
      ((fresh log).after before).Change call answer ((fresh log).after (before ++ [call])))
    (hphase : ((fresh log).after calls).phase = .building) (hlate : OpensLate (fresh log) calls)
    (before : List Call) : ∀ after, calls = before ++ after →
      ((fresh log).after before).Owes ((registered before).map useOf) ∧
      ∀ ident place, registeredTo ident place (fresh log) before =
        ((fresh log).after before).pendingAt ident place := by
  induction before using List.reverseRecOn with
  | nil => exact fun _ _ ↦ ⟨owes_fresh log, fun _ _ ↦ rfl⟩
  | append_singleton before call ih =>
    intro after hsplit
    have hcall : calls = before ++ call :: after := by simpa using hsplit
    obtain ⟨howes, hcounts⟩ := ih (call :: after) hcall
    obtain ⟨answer, hchange⟩ := hchanges before call after hcall
    have hkept := ((kept_fresh log).after before).1
    have hbuilding : ((fresh log).after (before ++ [call])).phase = .building := by
      have hadvances := (((kept_fresh log).after (before ++ [call])).1.after after).2
      rw [← after_append, ← hsplit] at hadvances
      exact hadvances.phase_eq_building hphase
    constructor
    · have hnext := Owes.change hkept howes hchange hbuilding ?_
      · rw [registered, List.filterMap_append, List.map_append]
        cases call <;> exact hnext
      · rintro name position rfl habsent use huse hident
        obtain ⟨entry, hentry, rfl⟩ := List.mem_map.mp huse
        exact hlate before _ after hcall habsent entry hentry hident
    · intro ident place
      rw [registeredTo_append_singleton, hcounts,
        pendingAt_of_change hkept hchange hbuilding]

end Build

/-! ### The emit phase -/

section Emit

variable {ledger : Ledger}

/-- A ledger that owes some uses resolves them in order, each with the decision for the later ones,
and then owes nothing. -/
theorem Owes.resolveAll (hphase : ledger.phase = .emitting) {order : List (String × Int)}
    (howes : ledger.Owes (order.map useOf)) :
    ∃ final, (order.mapM fun entry ↦ Writing.resolve entry.1 entry.2 : Writing _) ledger =
        (.ok (Use.decisions ledger.origin [] (order.map useOf)), final) ∧
      SameGenerations ledger final ∧ final.Owes [] := by
  induction order generalizing ledger with
  | nil => exact ⟨ledger, rfl, SameGenerations.refl ledger, howes⟩
  | cons entry rest ih =>
    obtain ⟨reached, hresolve, hsame, hreached⟩ := Owes.resolve hphase howes
    obtain ⟨final, hrest, hsameRest, hfinal⟩ := ih (hsame.phase.trans hphase) hreached
    have horigin : reached.origin = ledger.origin := funext hsame.origin
    refine ⟨final, ?_, hsame.trans hsameRest, hfinal⟩
    rw [List.mapM_cons, Writing.run_bind, Writing.resolve_run, hresolve]
    simp only [outcome, Writing.run_bind]
    rw [hrest, horigin, List.map_cons, Use.decisions, List.append_nil]
    rfl

/-- A use of a generation without pending uses is refused, and nothing is written. -/
theorem resolve_of_exhausted (hphase : ledger.phase = .emitting) (howes : ledger.Owes [])
    {name : String} {position place : Int}
    (horigin : ledger.origin ⟨sanitize name, position⟩ = some place) :
    Writing.resolve name position ledger =
      (.error (.fault (.unregistered (sanitize name) position)), ledger) := by
  obtain ⟨generation, hvisible, rfl⟩ := Option.map_eq_some_iff.mp horigin
  have hpending := (pendingAt_setPending_of_visible howes.ordered hvisible 0).1
  rw [howes.pending, List.countP_nil] at hpending
  rw [Writing.resolve_run, resolve_eq, if_pos hphase, hvisible]
  simp only [if_pos hpending.symm]
  rfl

end Emit

/-- The protocol of two phases is complete. After a build phase in which every call is accepted, the
registered uses are all resolved in any order, each generation takes its turns whatever is resolved
in between, nothing is outstanding then, and a use that is resolved once more is refused and changes
nothing. Assumes: a producer that opens a generation stands at a later position than the uses of its
identifier that are registered before it. -/
theorem resolved_in_any_order {log : Option (List Event)} {calls : List Call}
    {answers : List (Option Decision)} {built emitting : Ledger}
    (hbuilt : (calls.mapM Call.write : Writing _) (fresh log) = (.ok answers, built))
    (hemit : built.beginEmit = .ok emitting) (hlate : OpensLate (fresh log) calls)
    {order : List (String × Int)} (horder : order.Perm (registered calls)) :
    ∃ decisions final,
      (order.mapM fun entry ↦ Writing.resolve entry.1 entry.2 : Writing _) emitting =
        (.ok decisions, final) ∧
      decisions.map Decision.use = order.map useOf ∧
      (∀ ident place, (decisions.filter fun decision ↦ decision.name = ident ∧
          emitting.origin decision.use = some place).map Decision.ownership =
        Ownership.turns (registeredTo ident place (fresh log) calls)) ∧
      final.outstanding = [] ∧
      ∀ entry ∈ registered calls, Writing.resolve entry.1 entry.2 final =
        (.error (.fault (.unregistered (sanitize entry.1) entry.2)), final) := by
  obtain ⟨rfl, hchanges⟩ := changes_of_mapM hbuilt
  cases beginEmit_eq_ok_iff.mp hemit with
  | closed hphase =>
    obtain ⟨howes, hcounts⟩ :=
      owes_of_registered hchanges hphase hlate calls [] (List.append_nil calls).symm
    have hemitting : Owes { (fresh log).after calls with phase := .emitting }
        ((registered calls).map useOf) := ⟨howes.ordered, howes.reachable, howes.pending⟩
    have hordered := hemitting.perm (horder.map useOf).symm
    obtain ⟨final, hfinal, hsame, hnone⟩ := Owes.resolveAll rfl hordered
    refine ⟨_, final, hfinal, map_use_decisions _, ?_, hnone.outstanding_eq_nil, ?_⟩
    · intro ident place
      rw [ownership_of_decisions, ← hordered.pending, hcounts]
      rfl
    · intro entry hentry
      obtain ⟨place, horigin⟩ := hemitting.reachable _ (List.mem_map_of_mem hentry)
      exact resolve_of_exhausted hsame.phase hnone ((hsame.origin _).trans horigin)

/-- A build phase with a name that is produced again and with two spellings of another name. The
last use is registered after the second generation of its name, and belongs to the first. -/
def reproducing : List Call :=
  [.produce "x" 0, .futureUse "x" 0, .produce "a/b" 1, .futureUse "a.b" 3, .produce "x" 4,
    .futureUse "x" 4, .produce "x" 4, .futureUse "a:b" 2, .futureUse "x" 6, .futureUse "x" 2]

/-- The uses of the build phase, from the last to the first. -/
def backwards : List (String × Int) :=
  [("x", 2), ("x", 6), ("a:b", 2), ("x", 4), ("a.b", 3), ("x", 0)]

/-- The three generations take their turns in between one another. -/
theorem resolved_in_any_order_backwards :
    ∃ answers built emitting decisions final,
      (reproducing.mapM Call.write : Writing _) (fresh none) = (.ok answers, built) ∧
      built.beginEmit = .ok emitting ∧ OpensLate (fresh none) reproducing ∧
      backwards.Perm (registered reproducing) ∧
      (backwards.mapM fun entry ↦ Writing.resolve entry.1 entry.2 : Writing _) emitting =
        (.ok decisions, final) ∧
      decisions.map Decision.ownership =
        [.duplicate, .duplicate, .duplicate, .move, .move, .move] ∧
      final.outstanding = [] := by
  have hbuilt : (reproducing.mapM Call.write : Writing _) (fresh none) =
      (.ok (List.replicate 10 none), (fresh none).after reproducing) :=
    Prod.ext (by decide +kernel) rfl
  have hphase : ((fresh none).after reproducing).phase = .building := by decide +kernel
  have hemit := beginEmit_of_building hphase
  have hlate : OpensLate (fresh none) reproducing := by decide +kernel
  have hperm : backwards.Perm (registered reproducing) := by decide +kernel
  obtain ⟨decisions, final, hdecisions, _, _, houtstanding, _⟩ :=
    resolved_in_any_order hbuilt hemit hlate hperm
  have hownerships : ((backwards.mapM fun entry ↦ Writing.resolve entry.1 entry.2 : Writing _)
      { (fresh none).after reproducing with phase := .emitting }).1.toOption.map
        (List.map Decision.ownership) =
      some [.duplicate, .duplicate, .duplicate, .move, .move, .move] := by decide +kernel
  rw [hdecisions] at hownerships
  exact ⟨_, _, _, decisions, final, hbuilt, hemit, hlate, hperm, hdecisions,
    Option.some.inj hownerships, houtstanding⟩

end Ledger

end Handover
