import Handover.Proofs.Check.Passing
import Handover.Proofs.Generation.LastUse

/-!
# Emission does not fault

The ledger refuses nothing but the registration of a use that no producer precedes
(`emission_faultless`): producers are registered in time, every use that the second walk resolves is
pending, and so the only ledger faults of a generation are unknown names met by the first walk. A
ledger that is drained under checks has no outstanding use, and the second checkpoint never fails.
-/

set_option autoImplicit false
set_option relaxedAutoImplicit false

namespace Handover

section Checkpoints

variable {ops : List Op} {graph : Graph} {severity : Severity} {graphName : Option String}
  {err : Error}

theorem gate_eq_error {checkpoint : Checkpoint} {findings : List Finding}
    (herror : Checks.gate checkpoint (some severity) graphName findings = .error err) :
    findings ≠ [] ∧ ∃ failure, err = .check failure ∧ failure.checkpoint = checkpoint := by
  unfold Checks.gate at herror
  dsimp only at herror
  split_ifs at herror with hreaches
  obtain rfl := Except.error.inj herror
  refine ⟨?_, _, rfl, rfl⟩
  rintro rfl
  simp [anyReaches] at hreaches

/-- Assumes: checks of a graph that fail with plain errors only. -/
theorem runOnGraph_eq_error {checks : Checks}
    (hplain : ∀ check ∈ checks.onGraph, (check.run graph).Plain)
    (herror : checks.runOnGraph .preCodegen graph (some severity) graphName = .error err) :
    err.IsPlain ∨ ∃ failure, err = .check failure ∧ failure.checkpoint = .preCodegen := by
  rcases Result.bind_eq_error_iff.mp herror with hcollect | ⟨findings, _, hgate⟩
  · have hcollectPlain : Result.Plain (Checks.collect checks.onGraph graph) :=
      (Result.Plain.mapM_of_mem hplain).bind fun _ ↦ Result.plain_pure _
    exact .inl (hcollectPlain err hcollect)
  · exact .inr (gate_eq_error hgate).2

/-- The second checkpoint fails only with outstanding uses. -/
theorem runOnLedger_eq_error {ledger : Ledger}
    (herror : (standardChecks ops).runOnLedger .postEmit ledger (some severity) graphName =
      .error err) :
    ledger.outstanding ≠ [] ∧ ∃ failure, err = .check failure := by
  rcases Result.bind_eq_error_iff.mp herror with hcollect | ⟨findings, hcollect, hgate⟩
  · cases hcollect
  · obtain rfl := Except.ok.inj hcollect
    obtain ⟨hnonempty, failure, hfailure, _⟩ := gate_eq_error hgate
    refine ⟨?_, failure, hfailure⟩
    intro hnil
    refine hnonempty ?_
    rw [outstandingUses, hnil]
    rfl

end Checkpoints

section Faultless

variable {ops : List Op} {options : Options} {graph : Graph} {trace final : Trace}

/-- Writing the body of a graph fails with the error of its first unresolved use, or with a plain
error when there is none. -/
theorem writeBody_eq_error {style : ReferenceStyle} {log : Option (List Ledger.Event)} {err : Error}
    {ledger : Ledger} (herror : writeBody ops graph style (.fresh log) = (.error err, ledger)) :
    err.IsPlain ∨
      ∃ entry, graph.firstUnresolved? = some entry ∧ err = graph.unresolvedError entry := by
  cases hfirst : graph.firstUnresolved? with
  | some entry =>
    obtain ⟨_, hwritten⟩ := writeBody_of_unresolved ops style log hfirst
    rw [hwritten] at herror
    cases herror
    exact .inr ⟨entry, rfl, rfl⟩
  | none =>
    rcases writeBody_of_resolved ops style log hfirst with ⟨_, _, hok, _⟩ | ⟨_, _, hfailed, hplain⟩
    · rw [hok] at herror
      cases herror
    · rw [hfailed] at herror
      cases herror
      exact .inl hplain

/-- A generation that a ledger fault stops is stopped by its first walk, at an unresolved use. -/
theorem generate_eq_generation {failure : GenerationFailure}
    (herror : generate ⟨ops, standardChecks ops⟩ options graph trace =
      (.error (.generation failure), final)) :
    ∃ entry, graph.firstUnresolved? = some entry ∧
      Error.generation failure = graph.unresolvedError entry := by
  cases generate_eq_error herror with
  | options hvalidate => exact absurd (plain_validate options _ hvalidate) id
  | summary hsummary => exact absurd (plain_summary graph _ hsummary) id
  | checks _ hchecks =>
    rcases runOnGraph_eq_error (plain_standardChecks ops graph) hchecks with hplain | ⟨_, hcheck, _⟩
    · exact absurd hplain id
    · cases hcheck
  | body hbody => exact (writeBody_eq_error hbody).resolve_left id
  | drained _ _ _ hdrained =>
    obtain ⟨_, _, hcheck⟩ := runOnLedger_eq_error hdrained
    cases hcheck
  | text htext => exact absurd (plain_moduleText graph _ _ _ htext) id

/-- A ledger that is drained after the checks of its graph passed has no outstanding use. -/
theorem outstanding_eq_nil_of_checks {severity : Severity} {graphName : Option String}
    {findings : List Finding} {style : ReferenceStyle} {log : Option (List Ledger.Event)}
    {body : Body} {ledger : Ledger}
    (hchecks : (standardChecks ops).runOnGraph .preCodegen graph (some severity) graphName =
      .ok findings)
    (hwritten : writeBody ops graph style (.fresh log) = (.ok body, ledger)) :
    ledger.outstanding = [] := by
  obtain ⟨_, howes, _⟩ := writeBody_eq_ok _ _ _ hwritten
  have hclean := clean_of_runOnGraph (List.mem_cons_self ..) hchecks
  rw [returnedConstants_eq_nil hclean.not_constant] at howes
  exact howes.outstanding_eq_nil

/-- A graph that passes its checks is generated when its body and its text are written. -/
theorem exists_generated_of_checks {severity : Severity} {findings : List Finding} {body : Body}
    {ledger : Ledger} {source : String} (hvalidate : options.validate = .ok (some severity))
    (hquiet : options.verbose = false)
    (hchecks : (standardChecks ops).runOnGraph .preCodegen graph (some severity) (some graph.name) =
      .ok findings)
    (hwritten : writeBody ops graph options.style (.fresh trace.events) = (.ok body, ledger))
    (htext : moduleText graph options.className body = .ok source) :
    ∃ generated, (generate ⟨ops, standardChecks ops⟩ options graph trace).1 = .ok generated := by
  have hdrained : (standardChecks ops).runOnLedger .postEmit ledger (some severity)
      (some graph.name) = .ok [] := by
    show Checks.gate .postEmit (some severity) (some graph.name)
      [outstandingUses ledger].flatten = _
    rw [outstandingUses, outstanding_eq_nil_of_checks hchecks hwritten]
    rfl
  have hsilent : ∀ run found reached, run (some severity) = .ok found →
      checkpointFindings options (some severity) run reached = (.ok found, reached) := by
    intro run found reached hrun
    rw [checkpointFindings_run]
    simp [hrun, Generating.say, hquiet]
  have hledger : Generating.withLedger (writeBody ops graph options.style) trace =
      (.ok (body, ledger), { trace with events := ledger.log }) := by
    rw [Generating.withLedger, hwritten]
  rw [generate_run, hvalidate, hquiet]
  show ∃ generated,
    (generateChecked ⟨ops, standardChecks ops⟩ options graph (some severity) trace).1 =
      .ok generated
  unfold generateChecked
  rw [Stateful.run_bind, hsilent _ findings trace hchecks]
  dsimp only
  rw [Stateful.run_bind, hledger]
  dsimp only
  rw [Stateful.run_bind, hsilent _ [] _ hdrained, htext]
  exact ⟨_, rfl⟩

/-- The second checkpoint never fails. -/
theorem checkpoint_of_generate {failure : CheckFailure}
    (herror : generate ⟨ops, standardChecks ops⟩ options graph trace =
      (.error (.check failure), final)) : failure.checkpoint = .preCodegen := by
  cases generate_eq_error herror with
  | options hvalidate => exact absurd (plain_validate options _ hvalidate) id
  | summary hsummary => exact absurd (plain_summary graph _ hsummary) id
  | checks _ hchecks =>
    rcases runOnGraph_eq_error (plain_standardChecks ops graph) hchecks with
      hplain | ⟨_, hcheck, hcheckpoint⟩
    · exact absurd hplain id
    · cases hcheck
      exact hcheckpoint
  | body hbody =>
    rcases writeBody_eq_error hbody with hplain | ⟨_, _, hunresolved⟩
    · exact absurd hplain id
    · cases hunresolved
  | drained _ hchecks hbody hdrained =>
    exact absurd (outstanding_eq_nil_of_checks hchecks hbody) (runOnLedger_eq_error hdrained).1
  | text htext => exact absurd (plain_moduleText graph _ _ _ htext) id

end Faultless

/-- The ledger of a graph refuses nothing but a use that no producer precedes. -/
theorem emission_faultless (ops : List Op) (graph : Graph) :
    (∀ (log : Option (List Ledger.Event)) before name position after reached,
      graph.buildCalls = before ++ .produce name position :: after →
      before.forM (BuildCall.perform graph.name) (.fresh log) = (.ok (), reached) →
      ∃ next, reached.produce name position = .ok next) ∧
    (∀ style (log : Option (List Ledger.Event)) built err drained,
      buildLedger graph (.fresh log) = (.ok (), built) →
      emitBody ops graph style built = (.error err, drained) → err.IsPlain) ∧
    (∀ options trace failure final, generate ⟨ops, standardChecks ops⟩ options graph trace =
        (.error (.generation failure), final) →
      (∃ built, buildLedger graph (.fresh trace.events) = (.error (.generation failure), built)) ∧
        ∃ ident position, failure.cause = .unknown ident (some position)) ∧
    (∀ (options : Options) severity log findings body drained,
      options.validate = .ok (some severity) →
      (standardChecks ops).runOnGraph .preCodegen graph (some severity) (some graph.name) =
        .ok findings →
      writeBody ops graph options.style (.fresh log) = (.ok body, drained) →
      drained.outstanding = []) ∧
    ∀ options trace failure final, generate ⟨ops, standardChecks ops⟩ options graph trace =
      (.error (.check failure), final) → failure.checkpoint = .preCodegen := by
  refine ⟨?_, ?_, ?_, ?_, ?_⟩
  · intro log before name position after reached hsplit hmade
    have htimely := graph.timelyAfter_buildCalls
    rw [hsplit, timelyAfter_append, List.nil_append] at htimely
    obtain ⟨next, hnext, _⟩ := (reflects_of_forM hsplit hmade).produce htimely.2.1
    exact ⟨next, hnext⟩
  · intro style log built err drained hbuilt herror
    obtain ⟨hphase, horigin, howes⟩ := owes_of_buildLedger hbuilt
    rw [← List.append_assoc] at howes
    rcases settles_emitBody ops graph style built _ hphase horigin howes with
      ⟨_, _, hok, _⟩ | ⟨other, _, hfailed, hplain⟩
    · rw [hok] at herror
      cases herror
    · rw [hfailed] at herror
      cases herror
      exact hplain
  · intro options trace failure final herror
    obtain ⟨entry, hfirst, hfailure⟩ := generate_eq_generation herror
    refine ⟨?_, ?_⟩
    · rw [hfailure]
      exact buildLedger_eq_error _ hfirst
    · cases hfailure
      exact ⟨_, _, rfl⟩
  · exact fun _ _ _ _ _ _ _ hchecks hwritten ↦ outstanding_eq_nil_of_checks hchecks hwritten
  · exact fun _ _ _ _ herror ↦ checkpoint_of_generate herror

end Handover
