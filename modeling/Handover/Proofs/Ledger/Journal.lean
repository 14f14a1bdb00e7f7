import Handover.Proofs.Ledger.Invariant
import Handover.Proofs.Program.Log

/-!
# The journal of a ledger

The log of a ledger is a journal of what was done to it. An event stands for the call that it
records (`Event.replay`), and the events of a run, made one after the other on another fresh ledger,
are all accepted, answer what they record, and pass through the counters that they record
(`Replays`). They lead to the ledger that the run left, up to its phase and log, since exactly the
changes of a generation or a counter are entered (`Change.isEntered`, `HasJournal.change`). Keeping
a journal changes neither an answer nor the ledger (`run_withoutLog`). Together they are
`journal_faithful`.
-/

set_option autoImplicit false
set_option relaxedAutoImplicit false

namespace Handover.Ledger

/-! ### Replaying events -/

/-- The decision that an event records, if it records one. -/
def Event.decision? (event : Event) : Option Decision :=
  event.ownership.map fun ownership ↦ ⟨ownership, event.name, event.position⟩

/-- The call that an event records, made in place. The building phase ends before the first use. A
record under a label of its own stands for no call and is refused. -/
def Event.replay (event : Event) : Writing (Option Decision) :=
  match event.kind with
  | .produce => (Call.produce event.name event.position).write
  | .futureUse => (Call.futureUse event.name event.position).write
  | .use => do
    if (← get).phase = .building then Writing.beginEmit
    (Call.resolve event.name event.position).write
  | .custom label => throw (.fault (.general event.name event.position label))

/-- Events that are replayed one after the other: each of them is accepted, answers the decision
that it records, and leaves its generation with the pending uses that it records. -/
inductive Replays (start : Ledger) : List Event → Ledger → Prop
  | nil : Replays start [] start
  | snoc {events : List Event} {event : Event} {reached next : Ledger} {generation : Generation}
      (hbefore : Replays start events reached)
      (hreplay : event.replay reached = (.ok event.decision?, next))
      (hvisible : next.visible? event.name event.position = some generation)
      (hpending : event.pending = generation.pending) :
      Replays start (events ++ [event]) next

/-- What calls that are made in place answer, one after the other, refusals included. -/
def answers (ledger : Ledger) : List Call → List (Except Refusal (Option Decision))
  | [] => []
  | call :: rest => (call.write ledger).1 :: answers (call.write ledger).2 rest

/-- A ledger in another phase and with another log. -/
def replica (ledger : Ledger) (phase : Phase) (log : Option (List Event)) : Ledger :=
  { ledger with phase := phase, log := log }

section Replay

variable {ledger next start : Ledger} {call : Call} {answer : Option Decision}
  {events : List Event} {event : Event}

/-- Events that are replayed make a run that is accepted as a whole. -/
theorem Replays.mapM_eq (hreplays : Replays start events next) :
    (events.mapM Event.replay : Writing _) start =
      (.ok (events.map Event.decision?), next) := by
  induction hreplays with
  | nil => rfl
  | @snoc events event reached next generation _ hreplay _ _ ih =>
    rw [List.mapM_append, List.mapM_cons, List.mapM_nil, Writing.run_bind, ih, List.map_append]
    simp only [Writing.run_bind, hreplay]
    rfl

/-! ### Generations after a change -/

theorem lastNotAfter_withPendingAt (position place : Int) (pending : Nat)
    (generations : List Generation) :
    lastNotAfter position (generations.map (Generation.withPendingAt place pending)) =
      (lastNotAfter position generations).map (Generation.withPendingAt place pending) := by
  have hposition : ∀ generation : Generation,
      (generation.withPendingAt place pending).position = generation.position := by
    intro generation
    unfold Generation.withPendingAt
    split_ifs <;> rfl
  simp only [lastNotAfter, ← List.map_reverse, List.find?_map, Function.comp_def, hposition]

/-- The generation that a use belongs to, after its counter is set. -/
theorem visible?_setPending {ident : String} {position : Int} {generation : Generation}
    (hvisible : ledger.visible? ident position = some generation) (pending : Nat) :
    (ledger.setPending ident generation.position pending).visible? ident position =
      some { generation with pending := pending } := by
  rw [visible?, generationsOf_setPending_self, lastNotAfter_withPendingAt,
    show lastNotAfter position (ledger.generationsOf ident) = some generation from hvisible]
  simp [Generation.withPendingAt]

/-- A new generation is the one that a use at its position belongs to. -/
theorem visible?_extended (ident : String) (position : Int) :
    (extended ledger ident position).visible? ident position = some ⟨position, 0⟩ := by
  rw [visible?, generationsOf_extended_self]
  simp [lastNotAfter]

/-! ### Calls that are entered -/

/-- What an event leaves of the phase in which it is replayed. -/
def Event.phaseAfter (event : Event) (phase : Phase) : Phase :=
  if event.kind = .use then .emitting else phase

/-- A change that an event records: replayed on a ledger with the same generations that is not ahead
of the change, the event does what the change does. -/
structure Recorded (ledger : Ledger) (event : Event) (next : Ledger) : Prop where
  logged : next.log = ledger.log.map (· ++ [event])
  replay : ∀ phase log, (phase = .emitting → ledger.phase = .emitting) →
    event.replay (ledger.replica phase log) =
      (.ok event.decision?, next.replica (event.phaseAfter phase) (log.map (· ++ [event])))
  pending : ∃ generation, next.visible? event.name event.position = some generation ∧
    event.pending = generation.pending
  phase : next.phase = ledger.phase
  emitting : event.kind = .use → ledger.phase = .emitting

theorem eq_building_of_behind {phase : Phase} (hphase : ledger.phase = .building)
    (hbehind : phase = .emitting → ledger.phase = .emitting) : phase = .building := by
  cases phase with
  | building => rfl
  | emitting => exact absurd (hphase.symm.trans (hbehind rfl)) Phase.noConfusion

theorem recorded_opened {name : String} {position : Int} (hphase : ledger.phase = .building)
    (habsent : position ∉ ledger.positionsOf (sanitize name))
    (hlast : ∀ last, ledger.lastProduced = some last → last ≤ position) :
    ledger.Recorded ⟨.produce, sanitize name, position, 0, none⟩
      ((extended ledger (sanitize name) position).record
        ⟨.produce, sanitize name, position, 0, none⟩) where
  logged := rfl
  replay := by
    intro phase log hbehind
    obtain rfl := eq_building_of_behind hphase hbehind
    have hproduce : (ledger.replica .building log).produce (sanitize name) position = .ok _ :=
      produce_eq_ok_iff.mpr (.opened rfl ((sanitize_sanitize name).symm ▸ habsent) hlast)
    show (Call.produce (sanitize name) position).write _ = _
    rw [Call.write_eq, attempt, hproduce, sanitize_sanitize]
    rfl
  pending := ⟨_, visible?_extended _ _, rfl⟩
  phase := rfl
  emitting := fun h ↦ by cases h

theorem recorded_registered {name : String} {position : Int} {generation : Generation}
    (hphase : ledger.phase = .building)
    (hvisible : ledger.visible? (sanitize name) position = some generation) :
    ledger.Recorded ⟨.futureUse, sanitize name, position, generation.pending + 1, none⟩
      ((ledger.setPending (sanitize name) generation.position (generation.pending + 1)).record
        ⟨.futureUse, sanitize name, position, generation.pending + 1, none⟩) where
  logged := rfl
  replay := by
    intro phase log hbehind
    obtain rfl := eq_building_of_behind hphase hbehind
    have huse : (ledger.replica .building log).futureUse (sanitize name) position = .ok _ :=
      futureUse_eq_ok_iff.mpr (.registered rfl ((sanitize_sanitize name).symm ▸ hvisible))
    show (Call.futureUse (sanitize name) position).write _ = _
    rw [Call.write_eq, attempt, huse, sanitize_sanitize]
    rfl
  pending := ⟨_, visible?_setPending hvisible _, rfl⟩
  phase := rfl
  emitting := fun h ↦ by cases h

theorem recorded_resolved {name : String} {position : Int} {generation : Generation}
    {pending : Nat} (hphase : ledger.phase = .emitting)
    (hvisible : ledger.visible? (sanitize name) position = some generation)
    (hpending : generation.pending = pending + 1) :
    ledger.Recorded ⟨.use, sanitize name, position, pending,
        some (if pending = 0 then .move else .duplicate)⟩
      ((ledger.setPending (sanitize name) generation.position pending).record
        ⟨.use, sanitize name, position, pending,
          some (if pending = 0 then .move else .duplicate)⟩) where
  logged := rfl
  replay := by
    intro phase log _
    have hresolve : (ledger.replica .emitting log).resolve (sanitize name) position =
        .ok (_, _) :=
      resolve_eq_ok_iff.mpr
        (.resolved rfl ((sanitize_sanitize name).symm ▸ hvisible) hpending)
    -- whichever phase the replay is in, the use is resolved while emitting
    have hphases : Event.replay ⟨.use, sanitize name, position, pending,
        some (if pending = 0 then .move else .duplicate)⟩ (ledger.replica phase log) =
        (Call.resolve (sanitize name) position).write (ledger.replica .emitting log) := by
      cases phase <;> rfl
    rw [hphases, Call.write_eq, attempt, hresolve, sanitize_sanitize]
    rfl
  pending := ⟨_, visible?_setPending hvisible _, rfl⟩
  phase := rfl
  emitting := fun _ ↦ hphase

/-- A change either adds an event that records it, or leaves the log and every generation as they
are. -/
theorem Change.isEntered (hchange : ledger.Change call answer next) :
    (∃ event, ledger.Recorded event next) ∨
      next.log = ledger.log ∧ (∀ phase log, next.replica phase log = ledger.replica phase log) ∧
        (ledger.phase = .emitting → next.phase = .emitting) := by
  cases hchange with
  | again _ _ => exact .inr ⟨rfl, fun _ _ ↦ rfl, id⟩
  | opened hphase habsent hlast => exact .inl ⟨_, recorded_opened hphase habsent hlast⟩
  | registered hphase hvisible => exact .inl ⟨_, recorded_registered hphase hvisible⟩
  | closed _ => exact .inr ⟨rfl, fun _ _ ↦ rfl, fun _ ↦ rfl⟩
  | resolved hphase hvisible hpending =>
    exact .inl ⟨_, recorded_resolved hphase hvisible hpending⟩

theorem Recorded.behind {phase : Phase} (hrecorded : ledger.Recorded event next)
    (hbehind : phase = .emitting → ledger.phase = .emitting)
    (hphase : event.phaseAfter phase = .emitting) : next.phase = .emitting := by
  rw [hrecorded.phase]
  unfold Event.phaseAfter at hphase
  split_ifs at hphase with huse
  · exact hrecorded.emitting huse
  · exact hbehind hphase

end Replay

/-! ### Runs with a journal -/

section Runs

variable {ledger next : Ledger} {log : Option (List Event)}

/-- Whether a ledger that is reached from a fresh one has a journal: its events lead another fresh
ledger to the same generations, in a phase that is not ahead of that of the ledger. -/
def HasJournal (log : Option (List Event)) (ledger : Ledger) : Prop :=
  ∃ events phase, ledger.log = some events ∧ (phase = .emitting → ledger.phase = .emitting) ∧
    Replays (fresh log) events (ledger.replica phase (log.map (· ++ events)))

theorem hasJournal_fresh (log : Option (List Event)) : (fresh (some [])).HasJournal log := by
  refine ⟨[], .building, rfl, Phase.noConfusion, ?_⟩
  have hstart : (fresh (some [])).replica .building (log.map (· ++ [])) = fresh log := by
    simp only [List.append_nil, Option.map_id']
    rfl
  rw [hstart]
  exact .nil

theorem HasJournal.change {call : Call} {answer : Option Decision}
    (hjournal : ledger.HasJournal log) (hchange : ledger.Change call answer next) :
    next.HasJournal log := by
  obtain ⟨events, phase, hlog, hbehind, hreplays⟩ := hjournal
  rcases hchange.isEntered with ⟨event, hrecorded⟩ | ⟨hsame, hreplica, hphase⟩
  · obtain ⟨generation, hvisible, hpending⟩ := hrecorded.pending
    have hnext := hreplays.snoc (hrecorded.replay phase _ hbehind) hvisible hpending
    refine ⟨events ++ [event], event.phaseAfter phase, ?_, hrecorded.behind hbehind, ?_⟩
    · rw [hrecorded.logged, hlog]
      rfl
    · simpa [Option.map_map, Function.comp_def] using hnext
  · exact ⟨events, phase, hsame.trans hlog, hphase ∘ hbehind, hreplica _ _ ▸ hreplays⟩

/-! ### Runs without a journal -/

theorem attempt_withoutLog (ledger : Ledger) (call : Call) :
    ledger.withoutLog.attempt call = (ledger.attempt call).map (Prod.map id withoutLog) := by
  cases call with
  | produce name position =>
    rw [attempt, attempt, produce_withoutLog]
    cases ledger.produce name position <;> rfl
  | futureUse name position =>
    rw [attempt, attempt, futureUse_withoutLog]
    cases ledger.futureUse name position <;> rfl
  | beginEmit =>
    rw [attempt, attempt, beginEmit_withoutLog]
    cases ledger.beginEmit <;> rfl
  | resolve name position =>
    rw [attempt, attempt, resolve_withoutLog]
    cases ledger.resolve name position <;> rfl

theorem Call.write_withoutLog (call : Call) (ledger : Ledger) :
    call.write ledger.withoutLog = ((call.write ledger).1, (call.write ledger).2.withoutLog) := by
  rw [write_eq, write_eq, attempt_withoutLog]
  cases ledger.attempt call <;> rfl

/-- A ledger without its log answers as it does with it, and is left as it is with it. -/
theorem run_withoutLog (ledger : Ledger) (calls : List Call) :
    ledger.withoutLog.answers calls = ledger.answers calls ∧
      ledger.withoutLog.after calls = (ledger.after calls).withoutLog := by
  induction calls generalizing ledger with
  | nil => exact ⟨rfl, rfl⟩
  | cons call rest ih =>
    rw [answers, answers, after_cons, after_cons, call.write_withoutLog]
    obtain ⟨hanswers, hafter⟩ := ih (call.write ledger).2
    exact ⟨congrArg _ hanswers, hafter⟩

end Runs

/-- The log of a run on a fresh ledger is a faithful journal. Its events, replayed on another fresh
ledger, are all accepted, answer the decisions and pass through the counters that they record, and
lead to the ledger of the run, up to its phase and log. Without a log, the same calls have the same
answers and leave the same ledger. -/
theorem journal_faithful (calls : List Call) (log : Option (List Event)) :
    let ledger := (fresh (some [])).after calls
    (∃ events phase, ledger.log = some events ∧
      Replays (fresh log) events
        { ledger with phase := phase, log := log.map (· ++ events) } ∧
      (events.mapM Event.replay : Writing _) (fresh log) =
        (.ok (events.map Event.decision?),
          { ledger with phase := phase, log := log.map (· ++ events) })) ∧
      (fresh none).answers calls = (fresh (some [])).answers calls ∧
      (fresh none).after calls = { ledger with log := none } := by
  -- the run may reach its emitting phase before the replay, which closes at the first use
  obtain ⟨events, phase, hlog, _, hreplays⟩ : ((fresh (some [])).after calls).HasJournal log :=
    after_induction (hasJournal_fresh log) (fun _ _ _ _ ↦ HasJournal.change) calls
  exact ⟨⟨events, phase, hlog, hreplays, hreplays.mapM_eq⟩,
    run_withoutLog (fresh (some [])) calls⟩

/-- Calls that are refused, and one that registers a producer again, leave no trace in the journal.
-/
example : ((fresh (some [])).after [.resolve "x" 0, .produce "x/0" 0, .futureUse "x.0" 1,
    .produce "y" 2, .produce "x:0" 0, .produce "x" 1, .futureUse "z" 3, .beginEmit,
    .resolve "x_0" 1, .resolve "x_0" 1]).log.map (List.map Event.text) =
    some ["[scope] produce x_0@0", "[scope] future use x_0@1 (1 pending)", "[scope] produce y@2",
      "[scope] use x_0@1 -> move (0 left)"] := by decide +kernel

end Handover.Ledger
