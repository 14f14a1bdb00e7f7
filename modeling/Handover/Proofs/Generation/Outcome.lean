import Handover.Proofs.Program.FirstWalk
import Handover.Proofs.Program.SecondWalk

/-!
# Outcomes of a generation

How a generation ends. Writing a body fails at the first use that resolves to no generation of the
graph (`writeBody_of_unresolved`); when there is none it fails with plain errors only, and a written
body leaves a ledger that owes no more than the returned constants (`writeBody_of_resolved`). A
module that is generated comes from a body that was written on a fresh ledger (`generate_eq_ok`),
and a generation that fails stops at one of its steps (`Stop`, `generate_eq_error`).
-/

set_option autoImplicit false
set_option relaxedAutoImplicit false

namespace Handover

/-! ### Writing a body -/

section Body

variable {graph : Graph} (ops : List Op) (style : ReferenceStyle) (log : Option (List Ledger.Event))

theorem writeBody_of_unresolved {entry : Site × String}
    (hunresolved : graph.firstUnresolved? = some entry) :
    ∃ final,
      writeBody ops graph style (.fresh log) = (.error (graph.unresolvedError entry), final) := by
  obtain ⟨final, hfinal⟩ := buildLedger_eq_error log hunresolved
  refine ⟨final, ?_⟩
  show (buildLedger graph >>= fun _ ↦ emitBody ops graph style) _ = _
  rw [Stateful.run_bind, hfinal]

theorem writeBody_of_resolved (hresolved : graph.firstUnresolved? = none) :
    (∃ body final, writeBody ops graph style (.fresh log) = (.ok body, final) ∧
      final.Owes graph.returnedConstants ∧
      WrittenBody ops graph style graph.returnedConstants body) ∨
    ∃ err final, writeBody ops graph style (.fresh log) = (.error err, final) ∧ err.IsPlain := by
  obtain ⟨ledger, hbuilt, hphase, horigin, howes⟩ := buildLedger_eq_ok log hresolved
  rw [← List.append_assoc] at howes
  have hrun : writeBody ops graph style (.fresh log) = emitBody ops graph style ledger := by
    show (buildLedger graph >>= fun _ ↦ emitBody ops graph style) _ = _
    rw [Stateful.run_bind, hbuilt]
  rw [hrun]
  rcases settles_emitBody ops graph style ledger graph.returnedConstants hphase horigin howes with
    ⟨body, final, hbody, _, hfinal, hwritten⟩ | hfailed
  · exact .inl ⟨body, final, hbody, hfinal, hwritten⟩
  · exact .inr hfailed

/-- Assumes: a body that was written on a fresh ledger. -/
theorem writeBody_eq_ok {body : Body} {final : Ledger}
    (hwritten : writeBody ops graph style (.fresh log) = (.ok body, final)) :
    graph.firstUnresolved? = none ∧ final.Owes graph.returnedConstants ∧
      WrittenBody ops graph style graph.returnedConstants body := by
  cases hfirst : graph.firstUnresolved? with
  | some entry =>
    obtain ⟨_, herror⟩ := writeBody_of_unresolved ops style log hfirst
    rw [herror] at hwritten
    cases hwritten
  | none =>
    rcases writeBody_of_resolved ops style log hfirst with
      ⟨_, _, hbody, howes, hreferences⟩ | ⟨_, _, herror, _⟩
    · rw [hbody] at hwritten
      cases hwritten
      exact ⟨rfl, howes, hreferences⟩
    · rw [herror] at hwritten
      cases hwritten

end Body

/-! ### Options -/

section Options

variable {options : Options} {failOn : Option Severity}

/-- What options that are accepted at a failing severity say. -/
structure Options.Accepted (options : Options) (failOn : Option Severity) : Prop where
  duplicate : occursIn "\x7bname\x7d".toList options.style.duplicate.toList = true
  move : occursIn "\x7bname\x7d".toList options.style.move.toList = true
  className : Text.isUsableIdentifier options.className = true
  strictness : failingSeverity options.strictness = .ok failOn

theorem occursIn_of_requireNameField {label template : String}
    (hrequired : requireNameField label template = .ok ()) :
    occursIn "\x7bname\x7d".toList template.toList = true := by
  unfold requireNameField at hrequired
  split_ifs at hrequired with hoccurs
  · exact hoccurs
  · cases hrequired

theorem accepted_of_validate (hok : options.validate = .ok failOn) : options.Accepted failOn := by
  obtain ⟨_, hduplicate, hok⟩ := Result.bind_eq_ok_iff.mp hok
  obtain ⟨_, hmove, hok⟩ := Result.bind_eq_ok_iff.mp hok
  split_ifs at hok with hclass
  · cases hok
  · rw [Bool.not_eq_true', Bool.not_eq_false] at hclass
    exact ⟨occursIn_of_requireNameField hduplicate, occursIn_of_requireNameField hmove, hclass,
      hok⟩

/-- Checks run at every strictness but `none`. -/
theorem exists_severity_of_validate (hvalidate : options.validate = .ok failOn)
    (hstrictness : options.strictness = "normal" ∨ options.strictness = "strict") :
    ∃ severity, failOn = some severity := by
  have hseverity := (accepted_of_validate hvalidate).strictness
  rcases hstrictness with hnormal | hstrict
  · rw [hnormal] at hseverity
    exact ⟨.error, (Except.ok.inj hseverity).symm⟩
  · rw [hstrict] at hseverity
    exact ⟨.warning, (Except.ok.inj hseverity).symm⟩

end Options

/-! ### Steps of a generation -/

section Steps

variable (setup : Setup) (options : Options) (graph : Graph) (trace : Trace)

theorem checkpointFindings_run (failOn : Option Severity)
    (run : Option Severity → Result (List Finding)) :
    checkpointFindings options failOn run trace =
      match failOn with
      | none => (.ok [], trace)
      | some severity =>
        match run (some severity) with
        | .error err => (.error err, trace)
        | .ok findings =>
          (.ok findings, (Generating.say options (findings.map Finding.text) trace).2) := by
  cases failOn with
  | none => rfl
  | some severity =>
    show (Generating.lift (run (some severity)) >>= _) trace = _
    rw [Stateful.run_bind]
    dsimp only
    cases run (some severity) <;> rfl

/-- The generation of a module after the options have been checked and the graph announced. -/
def generateChecked (failOn : Option Severity) : Generating Generated := do
  let before ← checkpointFindings options failOn fun severity ↦
    setup.checks.runOnGraph .preCodegen graph severity (some graph.name)
  let (body, ledger) ← Generating.withLedger (writeBody setup.ops graph options.style)
  let after ← checkpointFindings options failOn fun severity ↦
    setup.checks.runOnLedger .postEmit ledger severity (some graph.name)
  let source ← Generating.lift (moduleText graph options.className body)
  Generating.say options [body.stats.text, ""]
  return ⟨graph.name, options.className, source, body.decisions, body.stats, before ++ after⟩

theorem generate_run :
    generate setup options graph trace =
      match options.validate with
      | .error err => (.error err, trace)
      | .ok failOn =>
        if options.verbose then
          match graph.summary with
          | .error err => (.error err, trace)
          | .ok summary => generateChecked setup options graph failOn
              (Generating.say options [summary, ""] trace).2
        else generateChecked setup options graph failOn trace := by
  show (Generating.lift options.validate >>= _) trace = _
  rw [Stateful.run_bind]
  cases options.validate with
  | error err => rfl
  | ok failOn =>
    show (if options.verbose = true then _ else _ : Generating Generated) trace = _
    cases options.verbose with
    | false => rfl
    | true =>
      show (Generating.lift graph.summary >>= _) trace = _
      rw [Stateful.run_bind]
      cases graph.summary <;> rfl

end Steps

section Outcomes

variable {setup : Setup} {options : Options} {graph : Graph} {trace final : Trace}
  {generated : Generated} {err : Error}

@[simp] theorem events_say (lines : List String) :
    (Generating.say options lines trace).2.events = trace.events := by
  unfold Generating.say
  split_ifs <;> rfl

theorem checkpointFindings_eq_ok {failOn : Option Severity}
    {run : Option Severity → Result (List Finding)} {findings : List Finding}
    (hok : checkpointFindings options failOn run trace = (.ok findings, final)) :
    final.events = trace.events ∧
      ∀ severity, failOn = some severity → run (some severity) = .ok findings := by
  rw [checkpointFindings_run] at hok
  cases failOn with
  | none =>
    cases hok
    exact ⟨rfl, fun severity hseverity ↦ by cases hseverity⟩
  | some severity =>
    dsimp only at hok
    cases hrun : run (some severity) with
    | error err =>
      rw [hrun] at hok
      cases hok
    | ok found =>
      rw [hrun] at hok
      cases hok
      refine ⟨events_say _, ?_⟩
      rintro _ ⟨rfl⟩
      exact hrun

theorem checkpointFindings_eq_error {failOn : Option Severity}
    {run : Option Severity → Result (List Finding)}
    (herror : checkpointFindings options failOn run trace = (.error err, final)) :
    ∃ severity, failOn = some severity ∧ run (some severity) = .error err := by
  rw [checkpointFindings_run] at herror
  cases failOn with
  | none => cases herror
  | some severity =>
    refine ⟨severity, rfl, ?_⟩
    dsimp only at herror
    cases hrun : run (some severity) with
    | error other =>
      rw [hrun] at herror
      cases herror
      rfl
    | ok found =>
      rw [hrun] at herror
      cases herror

/-- Assumes: a computation that succeeds on a fresh ledger. -/
theorem withLedger_of_ok {α : Type} {computation : Bookkeeping α} {value : α} {ledger : Ledger}
    (hrun : computation (.fresh trace.events) = (.ok value, ledger)) :
    Generating.withLedger computation trace =
      (.ok (value, ledger), { trace with events := ledger.log }) := by
  rw [Generating.withLedger, hrun]

theorem withLedger_eq_ok {α : Type} {computation : Bookkeeping α} {value : α} {ledger : Ledger}
    (hok : Generating.withLedger computation trace = (.ok (value, ledger), final)) :
    computation (.fresh trace.events) = (.ok value, ledger) := by
  unfold Generating.withLedger at hok
  rcases hrun : computation (.fresh trace.events) with ⟨_ | _, _⟩
  · rw [hrun] at hok
    cases hok
  · rw [hrun] at hok
    cases hok
    rfl

theorem withLedger_eq_error {α : Type} {computation : Bookkeeping α}
    (herror : Generating.withLedger computation trace = (.error err, final)) :
    ∃ ledger, computation (.fresh trace.events) = (.error err, ledger) := by
  unfold Generating.withLedger at herror
  rcases hrun : computation (.fresh trace.events) with ⟨_ | _, ledger⟩
  · rw [hrun] at herror
    cases herror
    exact ⟨ledger, rfl⟩
  · rw [hrun] at herror
    cases herror

/-- A generated module comes from a body that was written on a fresh ledger, after the checks of its
graph passed. -/
structure WrittenModule (setup : Setup) (options : Options) (graph : Graph)
    (log : Option (List Ledger.Event)) (failOn : Option Severity) (body : Body)
    (generated : Generated) : Prop where
  checked : ∀ severity, failOn = some severity → ∃ findings,
    setup.checks.runOnGraph .preCodegen graph (some severity) (some graph.name) = .ok findings
  written : ∃ ledger, writeBody setup.ops graph options.style (.fresh log) = (.ok body, ledger)
  source : moduleText graph options.className body = .ok generated.source
  decisions : generated.decisions = body.decisions
  stats : generated.stats = body.stats

theorem generateChecked_eq_ok {failOn : Option Severity}
    (hok : generateChecked setup options graph failOn trace = (.ok generated, final)) :
    ∃ body, WrittenModule setup options graph trace.events failOn body generated := by
  obtain ⟨before, checked, hbefore, hok⟩ := Stateful.bind_eq_ok_iff.mp hok
  obtain ⟨hevents, hchecked⟩ := checkpointFindings_eq_ok hbefore
  obtain ⟨⟨body, ledger⟩, written, hwritten, hok⟩ := Stateful.bind_eq_ok_iff.mp hok
  obtain ⟨after, drained, hafter, hok⟩ := Stateful.bind_eq_ok_iff.mp hok
  obtain ⟨source, worded, hsource, hok⟩ := Stateful.bind_eq_ok_iff.mp hok
  obtain ⟨_, said, hsaid, hok⟩ := Stateful.bind_eq_ok_iff.mp hok
  cases hok
  have hrun := withLedger_eq_ok hwritten
  rw [hevents] at hrun
  refine ⟨body, fun severity hseverity ↦ ⟨before, hchecked severity hseverity⟩, ⟨ledger, hrun⟩,
    ?_, rfl, rfl⟩
  exact congrArg Prod.fst hsource

theorem generate_eq_ok (hok : generate setup options graph trace = (.ok generated, final)) :
    ∃ failOn body, options.validate = .ok failOn ∧
      WrittenModule setup options graph trace.events failOn body generated := by
  rw [generate_run] at hok
  cases hvalidate : options.validate with
  | error err =>
    rw [hvalidate] at hok
    cases hok
  | ok failOn =>
    rw [hvalidate] at hok
    dsimp only at hok
    split_ifs at hok
    · cases hsummary : graph.summary with
      | error err =>
        rw [hsummary] at hok
        cases hok
      | ok summary =>
        rw [hsummary] at hok
        obtain ⟨body, hbody⟩ := generateChecked_eq_ok hok
        rw [events_say] at hbody
        exact ⟨failOn, body, rfl, hbody⟩
    · obtain ⟨body, hbody⟩ := generateChecked_eq_ok hok
      exact ⟨failOn, body, rfl, hbody⟩

/-- Where a generation that fails stops. -/
inductive Stop (setup : Setup) (options : Options) (graph : Graph)
    (log : Option (List Ledger.Event)) : Error → Prop
  | options {err : Error} (hvalidate : options.validate = .error err) :
      Stop setup options graph log err
  | summary {err : Error} (hsummary : graph.summary = .error err) : Stop setup options graph log err
  | checks {err : Error} {severity : Severity} (hvalidate : options.validate = .ok (some severity))
      (hchecks : setup.checks.runOnGraph .preCodegen graph (some severity) (some graph.name) =
        .error err) : Stop setup options graph log err
  | body {err : Error} {ledger : Ledger}
      (hbody : writeBody setup.ops graph options.style (.fresh log) = (.error err, ledger)) :
      Stop setup options graph log err
  | drained {err : Error} {severity : Severity} {findings : List Finding} {body : Body}
      {ledger : Ledger} (hvalidate : options.validate = .ok (some severity))
      (hchecks : setup.checks.runOnGraph .preCodegen graph (some severity) (some graph.name) =
        .ok findings)
      (hbody : writeBody setup.ops graph options.style (.fresh log) = (.ok body, ledger))
      (hdrained : setup.checks.runOnLedger .postEmit ledger (some severity) (some graph.name) =
        .error err) : Stop setup options graph log err
  | text {err : Error} {body : Body}
      (htext : moduleText graph options.className body = .error err) :
      Stop setup options graph log err

theorem generateChecked_eq_error {failOn : Option Severity}
    (hvalidate : options.validate = .ok failOn)
    (herror : generateChecked setup options graph failOn trace = (.error err, final)) :
    Stop setup options graph trace.events err := by
  rcases Stateful.bind_eq_error_iff.mp herror with hbefore | ⟨before, checked, hbefore, herror⟩
  · obtain ⟨severity, rfl, hchecks⟩ := checkpointFindings_eq_error hbefore
    exact .checks hvalidate hchecks
  obtain ⟨hevents, hchecked⟩ := checkpointFindings_eq_ok hbefore
  rcases Stateful.bind_eq_error_iff.mp herror with
    hbody | ⟨⟨body, ledger⟩, written, hwritten, herror⟩
  · obtain ⟨ledger, hbody⟩ := withLedger_eq_error hbody
    rw [hevents] at hbody
    exact .body hbody
  have hrun := withLedger_eq_ok hwritten
  rw [hevents] at hrun
  rcases Stateful.bind_eq_error_iff.mp herror with hafter | ⟨after, drained, hafter, herror⟩
  · obtain ⟨severity, rfl, hdrained⟩ := checkpointFindings_eq_error hafter
    exact .drained hvalidate (hchecked severity rfl) hrun hdrained
  rcases Stateful.bind_eq_error_iff.mp herror with htext | ⟨source, worded, hsource, herror⟩
  · exact .text (congrArg Prod.fst htext)
  · rcases Stateful.bind_eq_error_iff.mp herror with hsay | ⟨_, said, hsaid, herror⟩
    · cases hsay
    · cases herror

/-- A generation that fails stops at one of its steps. -/
theorem generate_eq_error (herror : generate setup options graph trace = (.error err, final)) :
    Stop setup options graph trace.events err := by
  rw [generate_run] at herror
  cases hvalidate : options.validate with
  | error other =>
    rw [hvalidate] at herror
    cases herror
    exact .options hvalidate
  | ok failOn =>
    rw [hvalidate] at herror
    dsimp only at herror
    split_ifs at herror
    · cases hsummary : graph.summary with
      | error other =>
        rw [hsummary] at herror
        cases herror
        exact .summary hsummary
      | ok summary =>
        rw [hsummary] at herror
        have hstop := generateChecked_eq_error hvalidate herror
        rwa [events_say] at hstop
    · exact generateChecked_eq_error hvalidate herror

/-- Without checks and without announcing the graph, a generation fails as soon as writing the body
does. -/
theorem generate_eq_error_of_writeBody {ledger : Ledger} (hvalidate : options.validate = .ok none)
    (hquiet : options.verbose = false)
    (hbody : writeBody setup.ops graph options.style (.fresh trace.events) = (.error err, ledger)) :
    ∃ final, generate setup options graph trace = (.error err, final) := by
  rw [generate_run, hvalidate, hquiet]
  refine ⟨{ trace with events := ledger.log }, ?_⟩
  show (checkpointFindings options none _ >>= _) trace = _
  rw [Stateful.run_bind, checkpointFindings_run]
  show (Generating.withLedger _ >>= _) trace = _
  rw [Stateful.run_bind, Generating.withLedger, hbody]

end Outcomes

end Handover
