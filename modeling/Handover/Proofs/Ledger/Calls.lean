import Handover.Proofs.Ledger.Account

/-!
# Runs of calls

The calls on a ledger as data (`Ledger.Call`), what an accepted call answers and leaves
(`Ledger.attempt`), and the five things that an accepted call can do (`Ledger.Change`,
`Ledger.attempt_eq_ok_iff`).

A call may also be made in place (`Ledger.Writing`): it reads the ledger, writes one part of it
after the other, and keeps what it has written when it is refused. Made in place, a call does what
the ledger does when it accepts the call, and a refused call has written nothing
(`Ledger.Call.write_eq`). A run makes calls in place, one after the other, whether they are accepted
or not (`Ledger.after`), so what every change keeps holds after every run
(`Ledger.after_induction`).
-/

set_option autoImplicit false
set_option relaxedAutoImplicit false

namespace Handover.Ledger

/-- A call on a ledger. -/
inductive Call
  | produce (name : String) (position : Int)
  | futureUse (name : String) (position : Int)
  | beginEmit
  | resolve (name : String) (position : Int)
deriving DecidableEq, Repr

/-- What a call answers, which is a decision when it resolves a use, and the ledger after it. -/
def attempt (ledger : Ledger) : Call → Except Refusal (Option Decision × Ledger)
  | .produce name position => (ledger.produce name position).map (Prod.mk none)
  | .futureUse name position => (ledger.futureUse name position).map (Prod.mk none)
  | .beginEmit => ledger.beginEmit.map (Prod.mk none)
  | .resolve name position => (ledger.resolve name position).map (Prod.map some id)

/-! ### Calls made in place -/

/-- A computation that writes into a ledger. What is written stays when it is refused. -/
abbrev Writing (α : Type) : Type := ExceptT Refusal (StateM Ledger) α

namespace Writing

/-- Refuses an operation outside its phase. -/
def demand (phase : Phase) (operation name : String) (position : Option Int) : Writing Unit := do
  let ledger ← get
  if ledger.phase = phase then return ()
  else throw (.fault (.wrongPhase operation ledger.phase.name name position))

/-- The generation that a use belongs to, or the fault that there is none. -/
def visible (ident : String) (position : Int) : Writing Generation := do
  match (← get).visible? ident position with
  | some generation => return generation
  | none => throw (.fault (.unknown ident (some position)))

/-- Adds an event to the log. -/
def record (event : Event) : Writing Unit := modify fun ledger ↦ ledger.record event

/-- Registers a producer: its generation is written, then the mark of the last producer, and then
the event. -/
def produce (name : String) (position : Int) : Writing Unit := do
  demand .building "register_produced" name (some position)
  let ident := sanitize name
  let ledger ← get
  if position ∈ ledger.positionsOf ident then return ()
  else
    match ledger.lastProduced.filter (position < ·) with
    | some last => throw (.misordered ident position last)
    | none =>
      modify fun ledger ↦ { ledger with
        producers := ledger.producers.insert ident (ledger.generationsOf ident ++ [⟨position, 0⟩]) }
      modify fun ledger ↦ { ledger with lastProduced := some position }
      record ⟨.produce, ident, position, 0, none⟩

/-- Registers a use: the counter of its generation is written, and then the event. -/
def futureUse (name : String) (position : Int) : Writing Unit := do
  demand .building "register_future_use" name (some position)
  let ident := sanitize name
  let generation ← visible ident position
  modify fun ledger ↦ ledger.setPending ident generation.position (generation.pending + 1)
  record ⟨.futureUse, ident, position, generation.pending + 1, none⟩

/-- Ends the building phase. -/
def beginEmit : Writing Unit := do
  demand .building "begin_emit" "" none
  modify fun ledger ↦ { ledger with phase := .emitting }

/-- Resolves a use: the counter of its generation is written, and then the event. -/
def resolve (name : String) (position : Int) : Writing Decision := do
  demand .emitting "resolve_use" name (some position)
  let ident := sanitize name
  let generation ← visible ident position
  if generation.pending = 0 then throw (.fault (.unregistered ident position))
  else
    let pending := generation.pending - 1
    modify fun ledger ↦ ledger.setPending ident generation.position pending
    let ownership := if pending = 0 then Ownership.move else Ownership.duplicate
    record ⟨.use, ident, position, pending, some ownership⟩
    return ⟨ownership, ident, position⟩

end Writing

/-- A call made in place, with its answer. -/
def Call.write : Call → Writing (Option Decision)
  | produce name position => do
    Writing.produce name position
    return none
  | futureUse name position => do
    Writing.futureUse name position
    return none
  | beginEmit => do
    Writing.beginEmit
    return none
  | resolve name position => do return some (← Writing.resolve name position)

/-- The ledger after calls that are made in place, refused ones included. -/
def after (ledger : Ledger) (calls : List Call) : Ledger :=
  calls.foldl (fun reached call ↦ (call.write reached).2) ledger

section Acceptance

variable {ledger next : Ledger} {name : String} {position : Int}

/-! ### When a call is accepted -/

theorem require_of_not_phase {phase : Phase} (hphase : ledger.phase ≠ phase)
    (operation name : String) (position : Option Int) :
    ledger.require phase operation name position =
      .error (.fault (.wrongPhase operation ledger.phase.name name position)) := if_neg hphase

/-- A producer is accepted while building. One that is there already changes nothing, and a new one
that no producer is later than adds its generation. -/
theorem produce_eq (ledger : Ledger) (name : String) (position : Int) :
    ledger.produce name position =
      if ledger.phase = .building then
        if position ∈ ledger.positionsOf (sanitize name) then .ok ledger
        else
          match ledger.lastProduced.filter (position < ·) with
          | some last => .error (.misordered (sanitize name) position last)
          | none => .ok ((extended ledger (sanitize name) position).record
              ⟨.produce, sanitize name, position, 0, none⟩)
      else .error (.fault (.wrongPhase "register_produced" ledger.phase.name name position)) := by
  unfold produce
  by_cases hphase : ledger.phase = .building
  · rw [require_of_phase hphase, if_pos hphase]
    by_cases hmem : position ∈ ledger.positionsOf (sanitize name)
    · simp only [any_position_iff.mpr hmem, if_pos hmem]
      rfl
    · have hany := (Bool.not_eq_true _).mp fun h ↦ hmem (any_position_iff.mp h)
      simp only [hany, if_neg hmem]
      cases hlast : ledger.lastProduced with
      | none => rfl
      | some last =>
        by_cases hlt : position < last
        · simp only [Option.filter_some, decide_true, hlt, if_true]
          rfl
        · simp only [Option.filter_some, decide_false, hlt]
          rfl
  · rw [require_of_not_phase hphase, if_neg hphase]
    rfl

theorem futureUse_eq (ledger : Ledger) (name : String) (position : Int) :
    ledger.futureUse name position =
      if ledger.phase = .building then
        match ledger.visible? (sanitize name) position with
        | some generation =>
          .ok ((ledger.setPending (sanitize name) generation.position
            (generation.pending + 1)).record
            ⟨.futureUse, sanitize name, position, generation.pending + 1, none⟩)
        | none => .error (.fault (.unknown (sanitize name) position))
      else .error (.fault (.wrongPhase "register_future_use" ledger.phase.name name position)) := by
  unfold futureUse
  by_cases hphase : ledger.phase = .building
  · rw [require_of_phase hphase, if_pos hphase]
    simp only [visible]
    cases ledger.visible? (sanitize name) position <;> rfl
  · rw [require_of_not_phase hphase, if_neg hphase]
    rfl

theorem beginEmit_eq (ledger : Ledger) :
    ledger.beginEmit =
      if ledger.phase = .building then .ok { ledger with phase := .emitting }
      else .error (.fault (.wrongPhase "begin_emit" ledger.phase.name "" none)) := by
  unfold beginEmit
  by_cases hphase : ledger.phase = .building
  · rw [require_of_phase hphase, if_pos hphase]
    rfl
  · rw [require_of_not_phase hphase, if_neg hphase]
    rfl

theorem resolve_eq (ledger : Ledger) (name : String) (position : Int) :
    ledger.resolve name position =
      if ledger.phase = .emitting then
        match ledger.visible? (sanitize name) position with
        | some generation =>
          if generation.pending = 0 then .error (.fault (.unregistered (sanitize name) position))
          else
            let pending := generation.pending - 1
            let ownership := if pending = 0 then Ownership.move else Ownership.duplicate
            .ok (⟨ownership, sanitize name, position⟩,
              (ledger.setPending (sanitize name) generation.position pending).record
                ⟨.use, sanitize name, position, pending, some ownership⟩)
        | none => .error (.fault (.unknown (sanitize name) position))
      else .error (.fault (.wrongPhase "resolve_use" ledger.phase.name name position)) := by
  unfold resolve
  by_cases hphase : ledger.phase = .emitting
  · rw [require_of_phase hphase, if_pos hphase]
    simp only [visible]
    cases ledger.visible? (sanitize name) position with
    | none => rfl
    | some generation =>
      have hexhausted : generation.isExhausted = decide (generation.pending = 0) := by
        rw [Generation.isExhausted, beq_eq_decide]
      show (if generation.isExhausted then _ else _) = _
      rw [hexhausted]
      by_cases hpending : generation.pending = 0
      · rw [if_pos (decide_eq_true hpending)]
        simp only [if_pos hpending]
        rfl
      · rw [if_neg (by simpa using hpending)]
        simp only [if_neg hpending]
        rfl
  · rw [require_of_not_phase hphase, if_neg hphase]
    rfl

end Acceptance

/-- What an accepted call does to a ledger, with its answer. -/
inductive Change (ledger : Ledger) : Call → Option Decision → Ledger → Prop
  /-- The producer is there already. -/
  | again {name : String} {position : Int} (hphase : ledger.phase = .building)
      (hmem : position ∈ ledger.positionsOf (sanitize name)) :
      Change ledger (.produce name position) none ledger
  /-- A generation without pending uses is added after the others of its identifier. -/
  | opened {name : String} {position : Int} (hphase : ledger.phase = .building)
      (habsent : position ∉ ledger.positionsOf (sanitize name))
      (hlast : ∀ last, ledger.lastProduced = some last → last ≤ position) :
      Change ledger (.produce name position) none
        ((extended ledger (sanitize name) position).record
          ⟨.produce, sanitize name, position, 0, none⟩)
  /-- The generation that a use belongs to has one more pending use. -/
  | registered {name : String} {position : Int} {generation : Generation}
      (hphase : ledger.phase = .building)
      (hvisible : ledger.visible? (sanitize name) position = some generation) :
      Change ledger (.futureUse name position) none
        ((ledger.setPending (sanitize name) generation.position (generation.pending + 1)).record
          ⟨.futureUse, sanitize name, position, generation.pending + 1, none⟩)
  /-- The building phase ends. -/
  | closed (hphase : ledger.phase = .building) :
      Change ledger .beginEmit none { ledger with phase := .emitting }
  /-- The generation that a use belongs to has one pending use fewer. -/
  | resolved {name : String} {position : Int} {generation : Generation} {pending : Nat}
      (hphase : ledger.phase = .emitting)
      (hvisible : ledger.visible? (sanitize name) position = some generation)
      (hpending : generation.pending = pending + 1) :
      Change ledger (.resolve name position)
        (some ⟨if pending = 0 then .move else .duplicate, sanitize name, position⟩)
        ((ledger.setPending (sanitize name) generation.position pending).record
          ⟨.use, sanitize name, position, pending,
            some (if pending = 0 then .move else .duplicate)⟩)

section Changes

variable {ledger next : Ledger} {answer : Option Decision}

theorem produce_eq_ok_iff {name : String} {position : Int} :
    ledger.produce name position = .ok next ↔
      ledger.Change (.produce name position) none next := by
  rw [produce_eq]
  constructor
  · intro hproduce
    split_ifs at hproduce with hphase hmem
    · obtain rfl := Except.ok.inj hproduce
      exact .again hphase hmem
    · split at hproduce
      · cases hproduce
      · rename_i hnone
        obtain rfl := Except.ok.inj hproduce
        refine .opened hphase hmem fun last hlast ↦ ?_
        rw [hlast, Option.filter_some] at hnone
        simpa using hnone
  · intro hchange
    cases hchange with
    | again hphase hmem => rw [if_pos hphase, if_pos hmem]
    | opened hphase habsent hlast =>
      have hnone : ledger.lastProduced.filter (position < ·) = none := by
        simpa [Option.filter_eq_none_iff] using hlast
      rw [if_pos hphase, if_neg habsent, hnone]

theorem futureUse_eq_ok_iff {name : String} {position : Int} :
    ledger.futureUse name position = .ok next ↔
      ledger.Change (.futureUse name position) none next := by
  rw [futureUse_eq]
  constructor
  · intro huse
    split_ifs at huse with hphase
    split at huse
    · rename_i generation hvisible
      obtain rfl := Except.ok.inj huse
      exact .registered hphase hvisible
    · cases huse
  · intro hchange
    cases hchange with
    | registered hphase hvisible => rw [if_pos hphase, hvisible]

theorem beginEmit_eq_ok_iff :
    ledger.beginEmit = .ok next ↔ ledger.Change .beginEmit none next := by
  rw [beginEmit_eq]
  constructor
  · intro hclose
    split_ifs at hclose with hphase
    obtain rfl := Except.ok.inj hclose
    exact .closed hphase
  · intro hchange
    cases hchange with
    | closed hphase => rw [if_pos hphase]

theorem resolve_eq_ok_iff {name : String} {position : Int} {decision : Decision} :
    ledger.resolve name position = .ok (decision, next) ↔
      ledger.Change (.resolve name position) (some decision) next := by
  rw [resolve_eq]
  constructor
  · intro hresolve
    split_ifs at hresolve with hphase
    split at hresolve
    · rename_i generation hvisible
      split_ifs at hresolve with hpending
      obtain ⟨rfl, rfl⟩ := Prod.mk.inj (Except.ok.inj hresolve)
      exact .resolved hphase hvisible (Nat.succ_pred_eq_of_ne_zero hpending).symm
    · cases hresolve
  · intro hchange
    cases hchange with
    | @resolved _ _ generation pending hphase hvisible hpending =>
      have hpred : generation.pending - 1 = pending := by omega
      rw [if_pos hphase, hvisible]
      simp only [hpred, if_neg (show generation.pending ≠ 0 by omega)]

theorem map_eq_ok_iff {α β : Type} {result : Except Refusal α} {f : α → β} {value : β} :
    result.map f = .ok value ↔ ∃ origin, result = .ok origin ∧ f origin = value := by
  cases result <;> simp [Except.map]

/-- The accepted calls are those that make one of the five changes. -/
theorem attempt_eq_ok_iff {call : Call} :
    ledger.attempt call = .ok (answer, next) ↔ ledger.Change call answer next := by
  constructor
  · intro haccepted
    cases call with
    | produce name position =>
      obtain ⟨_, hproduce, heq⟩ := map_eq_ok_iff.mp haccepted
      cases heq
      exact produce_eq_ok_iff.mp hproduce
    | futureUse name position =>
      obtain ⟨_, huse, heq⟩ := map_eq_ok_iff.mp haccepted
      cases heq
      exact futureUse_eq_ok_iff.mp huse
    | beginEmit =>
      obtain ⟨_, hclose, heq⟩ := map_eq_ok_iff.mp haccepted
      cases heq
      exact beginEmit_eq_ok_iff.mp hclose
    | resolve name position =>
      obtain ⟨_, hresolve, heq⟩ := map_eq_ok_iff.mp haccepted
      cases heq
      exact resolve_eq_ok_iff.mp hresolve
  · intro hchange
    cases hchange with
    | again hphase hmem =>
      exact map_eq_ok_iff.mpr ⟨_, produce_eq_ok_iff.mpr (.again hphase hmem), rfl⟩
    | opened hphase habsent hlast =>
      exact map_eq_ok_iff.mpr ⟨_, produce_eq_ok_iff.mpr (.opened hphase habsent hlast), rfl⟩
    | registered hphase hvisible =>
      exact map_eq_ok_iff.mpr ⟨_, futureUse_eq_ok_iff.mpr (.registered hphase hvisible), rfl⟩
    | closed hphase =>
      exact map_eq_ok_iff.mpr ⟨_, beginEmit_eq_ok_iff.mpr (.closed hphase), rfl⟩
    | resolved hphase hvisible hpending =>
      exact map_eq_ok_iff.mpr ⟨_, resolve_eq_ok_iff.mpr (.resolved hphase hvisible hpending), rfl⟩

end Changes

/-! ### Calls made in place are the calls of the ledger -/

section InPlace

variable {α β : Type} {ledger : Ledger}

/-- What a call that is made in place comes to: its answer and the ledger after it, or its refusal
and the ledger as it was. -/
def outcome (ledger : Ledger) : Except Refusal (α × Ledger) → Except Refusal α × Ledger
  | .ok (answer, next) => (.ok answer, next)
  | .error refusal => (.error refusal, ledger)

namespace Writing

theorem run_bind (first : Writing α) (next : α → Writing β) (ledger : Ledger) :
    (first >>= next) ledger =
      match first ledger with
      | (.ok value, reached) => next value reached
      | (.error refusal, reached) => (.error refusal, reached) := by
  show (ExceptT.bindCont next (first ledger).1) (first ledger).2 = _
  rcases first ledger with ⟨_ | _, _⟩ <;> rfl

theorem run_demand (phase : Phase) (operation name : String) (position : Option Int) :
    demand phase operation name position ledger =
      if ledger.phase = phase then (.ok (), ledger)
      else (.error (.fault (.wrongPhase operation ledger.phase.name name position)), ledger) := by
  show (if ledger.phase = phase then pure () else throw _ : Writing Unit) ledger = _
  split_ifs <;> rfl

theorem run_visible (ident : String) (position : Int) :
    visible ident position ledger =
      match ledger.visible? ident position with
      | some generation => (.ok generation, ledger)
      | none => (.error (.fault (.unknown ident (some position))), ledger) := by
  show (match ledger.visible? ident position with
    | some generation => pure generation
    | none => throw _ : Writing Generation) ledger = _
  cases ledger.visible? ident position <;> rfl

theorem produce_run (name : String) (position : Int) :
    produce name position ledger =
      outcome ledger (do return ((), ← ledger.produce name position)) := by
  rw [produce_eq, produce, run_bind, run_demand]
  by_cases hphase : ledger.phase = .building
  · simp only [if_pos hphase]
    show (if position ∈ ledger.positionsOf (sanitize name) then pure () else _ : Writing Unit)
      ledger = _
    split_ifs
    · rfl
    · cases ledger.lastProduced.filter (position < ·) <;> rfl
  · simp only [if_neg hphase]
    rfl

theorem futureUse_run (name : String) (position : Int) :
    futureUse name position ledger =
      outcome ledger (do return ((), ← ledger.futureUse name position)) := by
  rw [futureUse_eq, futureUse, run_bind, run_demand]
  by_cases hphase : ledger.phase = .building
  · simp only [if_pos hphase]
    rw [run_bind, run_visible]
    cases ledger.visible? (sanitize name) position <;> rfl
  · simp only [if_neg hphase]
    rfl

theorem beginEmit_run : beginEmit ledger = outcome ledger (do return ((), ← ledger.beginEmit)) := by
  rw [beginEmit_eq, beginEmit, run_bind, run_demand]
  by_cases hphase : ledger.phase = .building
  · simp only [if_pos hphase]
    rfl
  · simp only [if_neg hphase]
    rfl

theorem resolve_run (name : String) (position : Int) :
    resolve name position ledger = outcome ledger (ledger.resolve name position) := by
  rw [resolve_eq, resolve, run_bind, run_demand]
  by_cases hphase : ledger.phase = .emitting
  · simp only [if_pos hphase]
    rw [run_bind, run_visible]
    cases ledger.visible? (sanitize name) position with
    | none => rfl
    | some generation =>
      show (if generation.pending = 0 then throw _ else _ : Writing Decision) ledger = _
      by_cases hpending : generation.pending = 0
      · simp only [if_pos hpending]
        rfl
      · simp only [if_neg hpending]
        rfl
  · simp only [if_neg hphase]
    rfl

end Writing

/-- Made in place, a call does what the ledger does when it accepts the call, and leaves the ledger
as it was when it is refused. -/
theorem Call.write_eq (call : Call) (ledger : Ledger) :
    call.write ledger = outcome ledger (ledger.attempt call) := by
  cases call with
  | produce name position =>
    rw [write, Writing.run_bind, Writing.produce_run, attempt]
    cases ledger.produce name position <;> rfl
  | futureUse name position =>
    rw [write, Writing.run_bind, Writing.futureUse_run, attempt]
    cases ledger.futureUse name position <;> rfl
  | beginEmit =>
    rw [write, Writing.run_bind, Writing.beginEmit_run, attempt]
    cases ledger.beginEmit <;> rfl
  | resolve name position =>
    rw [write, Writing.run_bind, Writing.resolve_run, attempt]
    cases ledger.resolve name position <;> rfl

/-- A call that is made in place is accepted as the ledger accepts it and makes a change, or it is
refused as the ledger refuses it and has written nothing. -/
theorem Call.change_or_refused (call : Call) (ledger : Ledger) :
    (∃ answer next, ledger.attempt call = .ok (answer, next) ∧
        call.write ledger = (.ok answer, next) ∧ ledger.Change call answer next) ∨
      ∃ refusal, ledger.attempt call = .error refusal ∧
        call.write ledger = (.error refusal, ledger) := by
  rw [write_eq]
  cases haccepted : ledger.attempt call with
  | ok result => exact .inl ⟨result.1, result.2, rfl, rfl, attempt_eq_ok_iff.mp haccepted⟩
  | error refusal => exact .inr ⟨refusal, rfl, rfl⟩

end InPlace

/-! ### Runs -/

section Runs

variable {ledger : Ledger}

theorem after_cons (call : Call) (calls : List Call) :
    ledger.after (call :: calls) = Ledger.after (call.write ledger).2 calls := rfl

/-- What every change keeps is kept by a run. -/
theorem after_induction {motive : Ledger → Prop} (hstart : motive ledger)
    (hchange : ∀ reached call answer next, motive reached → reached.Change call answer next →
      motive next) (calls : List Call) : motive (ledger.after calls) := by
  induction calls generalizing ledger with
  | nil => exact hstart
  | cons call rest ih =>
    rw [after_cons]
    refine ih ?_
    rcases call.change_or_refused ledger with
      ⟨answer, next, _, hwrite, hmade⟩ | ⟨refusal, _, hwrite⟩
    · rw [hwrite]
      exact hchange ledger call answer next hstart hmade
    · rw [hwrite]
      exact hstart

end Runs

end Handover.Ledger
