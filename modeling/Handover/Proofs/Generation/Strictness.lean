import Handover.Proofs.Generation.Faultless

/-!
# Strictness

Strictness decides at which severity a checkpoint fails, and it decides nothing else
(`strictness_only_gates`). Closing a checkpoint gives the findings of all its checks in the order of
registration, or fails with all of them (`Checks.close_eq_ok_iff`, `Checks.close_eq_error_iff`), so
a checkpoint that passes at one severity passes with the same findings at every more lenient one,
and one that fails there fails with the same findings at every stricter one. What is generated
between and after the checkpoints does not see their findings
(`generateChecked_eq_ok_of_lenient`, `generateChecked_eq_ok_of_unchecked`), and a generation that a
checkpoint stops is stopped by one of the two (`FailsAt`, `generate_eq_check_iff`).
-/

set_option autoImplicit false
set_option relaxedAutoImplicit false

namespace Handover

/-! ### Closing a checkpoint -/

namespace Checks

variable {α : Type} (checks : List (Check α)) (target : α)

/-- The run of the checks of a checkpoint at a failing severity. -/
def close (checkpoint : Checkpoint) (graphName : Option String) (severity : Severity) :
    Result (List Finding) := do
  gate checkpoint (some severity) graphName (← collect checks target)

/-- Whether every check reports, and what they report together, in the order of registration. -/
def Report (findings : List Finding) : Prop :=
  ∃ lists, List.Forall₂ (fun check own ↦ check.run target = .ok own) checks lists ∧
    findings = lists.flatten

/-- Whether a check fails with an error of its own while those registered before it report. -/
def BreakOff (err : Error) : Prop :=
  ∃ before check after, checks = before ++ check :: after ∧
    (∀ earlier ∈ before, (earlier.run target).Returns) ∧ check.run target = .error err

variable {checks target} {checkpoint : Checkpoint} {graphName : Option String}
  {severity lenient strict : Severity} {findings : List Finding} {err : Error}

theorem collect_eq_ok_iff :
    collect checks target = .ok findings ↔ Report checks target findings := by
  unfold collect
  rw [Result.bind_eq_ok_iff]
  refine exists_congr fun lists ↦ and_congr Result.mapM_eq_ok_iff ?_
  exact ⟨fun h ↦ (Except.ok.inj h).symm, fun h ↦ congrArg _ h.symm⟩

theorem collect_eq_error_iff :
    collect checks target = .error err ↔ BreakOff checks target err := by
  unfold collect
  rw [Result.bind_eq_error_iff]
  constructor
  · rintro (hbroken | ⟨_, _, hpure⟩)
    · exact Result.mapM_eq_error_iff.mp hbroken
    · cases hpure
  · exact fun hbroken ↦ .inl (Result.mapM_eq_error_iff.mpr hbroken)

theorem anyReaches_iff :
    anyReaches findings severity = true ↔
      ∃ finding ∈ findings, finding.severity.rank ≤ severity.rank := by
  simp [anyReaches, Severity.reaches]

/-- A checkpoint passes with the findings of all its checks when none of them is serious enough. -/
theorem close_eq_ok_iff :
    close checks target checkpoint graphName severity = .ok findings ↔
      Report checks target findings ∧
        ¬ ∃ finding ∈ findings, finding.severity.rank ≤ severity.rank := by
  unfold close gate
  rw [Result.bind_eq_ok_iff, ← anyReaches_iff, ← collect_eq_ok_iff]
  constructor
  · rintro ⟨found, hcollect, hgate⟩
    dsimp only at hgate
    split_ifs at hgate with hreaches
    obtain rfl := Except.ok.inj hgate
    exact ⟨hcollect, hreaches⟩
  · rintro ⟨hcollect, hreaches⟩
    exact ⟨findings, hcollect, if_neg hreaches⟩

/-- A checkpoint fails with the error of the first check that does not report, and otherwise with
the findings of all its checks when one of them is serious enough. -/
theorem close_eq_error_iff :
    close checks target checkpoint graphName severity = .error err ↔
      BreakOff checks target err ∨ ∃ findings, Report checks target findings ∧
        (∃ finding ∈ findings, finding.severity.rank ≤ severity.rank) ∧
        err = .check ⟨checkpoint, findings, severity, graphName⟩ := by
  unfold close gate
  rw [Result.bind_eq_error_iff, collect_eq_error_iff]
  refine or_congr_right (exists_congr fun found ↦ ?_)
  rw [← anyReaches_iff, ← collect_eq_ok_iff]
  refine and_congr_right fun _ ↦ ?_
  constructor
  · intro hgate
    dsimp only at hgate
    split_ifs at hgate with hreaches
    exact ⟨hreaches, (Except.error.inj hgate).symm⟩
  · rintro ⟨hreaches, rfl⟩
    exact if_pos hreaches

/-- Assumes: a severity that is no stricter. -/
theorem close_eq_ok_of_rank_le (hrank : lenient.rank ≤ strict.rank)
    (hpassed : close checks target checkpoint graphName strict = .ok findings) :
    close checks target checkpoint graphName lenient = .ok findings := by
  rw [close_eq_ok_iff] at hpassed ⊢
  refine ⟨hpassed.1, ?_⟩
  rintro ⟨finding, hmem, hserious⟩
  exact hpassed.2 ⟨finding, hmem, hserious.trans hrank⟩

/-- A checkpoint that passes at a severity passes at a stricter one, or fails there with what its
checks report. -/
theorem close_of_close_eq_ok (strict : Severity)
    (hpassed : close checks target checkpoint graphName severity = .ok findings) :
    close checks target checkpoint graphName strict = .ok findings ∨
      ∃ failure, close checks target checkpoint graphName strict = .error (.check failure) := by
  have hreport := (close_eq_ok_iff.mp hpassed).1
  by_cases hserious : ∃ finding ∈ findings, finding.severity.rank ≤ strict.rank
  · exact .inr ⟨_, close_eq_error_iff.mpr (.inr ⟨findings, hreport, hserious, rfl⟩)⟩
  · exact .inl (close_eq_ok_iff.mpr ⟨hreport, hserious⟩)

end Checks

/-- Whether two failures differ in nothing but the severity at which they failed. -/
structure CheckFailure.Agrees (first second : CheckFailure) : Prop where
  checkpoint : first.checkpoint = second.checkpoint
  findings : first.findings = second.findings
  graphName : first.graphName = second.graphName

/-- A checkpoint that fails fails with the same findings at a stricter severity. -/
theorem Checks.exists_close_eq_error {α : Type} {checks : List (Check α)} {target : α}
    {checkpoint : Checkpoint} {graphName : Option String} {lenient strict : Severity}
    {failure : CheckFailure} (hrank : lenient.rank ≤ strict.rank)
    (hfailed : close checks target checkpoint graphName lenient = .error (.check failure)) :
    ∃ other, close checks target checkpoint graphName strict = .error (.check other) ∧
      other.Agrees failure := by
  rcases close_eq_error_iff.mp hfailed with
    hbroken | ⟨findings, hreport, ⟨finding, hmem, hserious⟩, heq⟩
  · exact ⟨failure, close_eq_error_iff.mpr (.inl hbroken), rfl, rfl, rfl⟩
  · cases heq
    exact ⟨⟨checkpoint, findings, strict, graphName⟩, close_eq_error_iff.mpr
      (.inr ⟨findings, hreport, ⟨finding, hmem, hserious.trans hrank⟩, rfl⟩), rfl, rfl, rfl⟩

/-! ### Options of another strictness -/

namespace Options

/-- The options with another strictness. -/
def under (options : Options) (strictness : String) : Options := { options with strictness }

variable {options : Options} {failOn : Option Severity}

theorem validate_of_accepted (haccepted : options.Accepted failOn) :
    options.validate = .ok failOn := by
  unfold validate requireNameField
  rw [if_pos haccepted.duplicate, if_pos haccepted.move, haccepted.className,
    ← haccepted.strictness]
  rfl

/-- Assumes: options that are accepted at some strictness. -/
theorem validate_under {first second : String} {other : Option Severity}
    (hvalidate : (options.under first).validate = .ok failOn)
    (hseverity : failingSeverity second = .ok other) :
    (options.under second).validate = .ok other := by
  have haccepted := accepted_of_validate hvalidate
  exact validate_of_accepted
    ⟨haccepted.duplicate, haccepted.move, haccepted.className, hseverity⟩

end Options

/-! ### Generations at several severities -/

section Severities

variable {setup : Setup} {options : Options} {graph : Graph} {trace final : Trace}
  {generated : Generated} {lenient strict : Severity}

theorem checkpointFindings_of_lenient {run : Option Severity → Result (List Finding)}
    {found : List Finding}
    (hrun : ∀ findings, run (some strict) = .ok findings → run (some lenient) = .ok findings)
    (hok : checkpointFindings options (some strict) run trace = (.ok found, final)) :
    checkpointFindings options (some lenient) run trace = (.ok found, final) := by
  rw [checkpointFindings_run] at hok ⊢
  dsimp only at hok ⊢
  cases hstrict : run (some strict) with
  | error err =>
    rw [hstrict] at hok
    cases hok
  | ok findings =>
    rw [hstrict] at hok
    rw [hrun findings hstrict]
    exact hok

/-- A module that is generated at a severity is generated at every more lenient one, and the same
is printed and logged. -/
theorem generateChecked_eq_ok_of_lenient (hrank : lenient.rank ≤ strict.rank)
    (hok : generateChecked setup options graph (some strict) trace = (.ok generated, final)) :
    generateChecked setup options graph (some lenient) trace = (.ok generated, final) := by
  obtain ⟨before, checked, hbefore, hok⟩ := Stateful.bind_eq_ok_iff.mp hok
  obtain ⟨⟨body, ledger⟩, written, hwritten, hok⟩ := Stateful.bind_eq_ok_iff.mp hok
  obtain ⟨after, drained, hafter, hok⟩ := Stateful.bind_eq_ok_iff.mp hok
  have hgraph := checkpointFindings_of_lenient
    (fun _ hpassed ↦ Checks.close_eq_ok_of_rank_le hrank hpassed) hbefore
  have hledger := checkpointFindings_of_lenient
    (fun _ hpassed ↦ Checks.close_eq_ok_of_rank_le hrank hpassed) hafter
  exact Stateful.bind_eq_ok_iff.mpr ⟨before, checked, hgraph, Stateful.bind_eq_ok_iff.mpr
    ⟨(body, ledger), written, hwritten, Stateful.bind_eq_ok_iff.mpr ⟨after, drained, hledger, hok⟩⟩⟩

theorem withLedger_events {α : Type} {computation : Bookkeeping α} {value : α} {ledger : Ledger}
    (hok : Generating.withLedger computation trace = (.ok (value, ledger), final))
    {other : Trace} (hevents : other.events = trace.events) :
    ∃ reached, Generating.withLedger computation other = (.ok (value, ledger), reached) ∧
      reached.events = final.events := by
  have hrun := withLedger_eq_ok hok
  obtain rfl := (Prod.mk.inj (hok.symm.trans (withLedger_of_ok hrun))).2
  rw [← hevents] at hrun
  exact ⟨_, withLedger_of_ok hrun, rfl⟩

/-- A module that is generated with checks is generated without them, but with no findings. What is
logged is the same; what is printed differs by the findings. -/
theorem generateChecked_eq_ok_of_unchecked {failOn : Option Severity}
    (hok : generateChecked setup options graph failOn trace = (.ok generated, final)) :
    ∃ silent, generateChecked setup options graph none trace =
        (.ok { generated with findings := [] }, silent) ∧ silent.events = final.events := by
  obtain ⟨before, checked, hbefore, hok⟩ := Stateful.bind_eq_ok_iff.mp hok
  obtain ⟨⟨body, ledger⟩, written, hwritten, hok⟩ := Stateful.bind_eq_ok_iff.mp hok
  obtain ⟨after, drained, hafter, hok⟩ := Stateful.bind_eq_ok_iff.mp hok
  obtain ⟨source, worded, hsource, hok⟩ := Stateful.bind_eq_ok_iff.mp hok
  obtain ⟨reached, hreached, hevents⟩ :=
    withLedger_events hwritten (checkpointFindings_eq_ok hbefore).1.symm
  have htext : moduleText graph options.className body = .ok source := congrArg Prod.fst hsource
  have hworded : worded = drained := (congrArg Prod.snd hsource).symm
  obtain ⟨_, said, hsaid, hok⟩ := Stateful.bind_eq_ok_iff.mp hok
  have hfinal : said = (Generating.say options [body.stats.text, ""] worded).2 :=
    (congrArg Prod.snd hsaid).symm
  cases hok
  refine ⟨(Generating.say options [body.stats.text, ""] reached).2, ?_, ?_⟩
  · refine Stateful.bind_eq_ok_iff.mpr ⟨[], trace, rfl, Stateful.bind_eq_ok_iff.mpr
      ⟨(body, ledger), reached, hreached, Stateful.bind_eq_ok_iff.mpr ⟨[], reached, rfl,
        Stateful.bind_eq_ok_iff.mpr ⟨source, reached, ?_, rfl⟩⟩⟩⟩
    exact Prod.ext htext rfl
  · rw [hfinal, events_say, events_say, hworded, (checkpointFindings_eq_ok hafter).1, hevents]

end Severities

/-! ### Failing at a checkpoint -/

section FailsAt

variable (setup : Setup) (options : Options) (graph : Graph) (log : Option (List Ledger.Event))

/-- Whether a generation reaches its first checkpoint: the options are accepted, and the graph can
be announced if it has to be. -/
structure Opens (failOn : Option Severity) : Prop where
  accepted : options.validate = .ok failOn
  announced : options.verbose = true → graph.summary.Returns

/-- The checkpoint at which a generation fails, and the error with which its checks end there. The
second one is reached by the ledger of a written body. -/
inductive FailsAt : Checkpoint → Error → Prop
  | preCodegen {severity : Severity} {err : Error} (hopens : Opens options graph (some severity))
      (hclosed : setup.checks.runOnGraph .preCodegen graph (some severity) (some graph.name) =
        .error err) : FailsAt .preCodegen err
  | postEmit {severity : Severity} {findings : List Finding} {body : Body} {ledger : Ledger}
      {err : Error} (hopens : Opens options graph (some severity))
      (hpassed : setup.checks.runOnGraph .preCodegen graph (some severity) (some graph.name) =
        .ok findings)
      (hwritten : writeBody setup.ops graph options.style (.fresh log) = (.ok body, ledger))
      (hclosed : setup.checks.runOnLedger .postEmit ledger (some severity) (some graph.name) =
        .error err) : FailsAt .postEmit err

/-- The trace of a generation that reaches its first checkpoint. -/
def announcing (trace : Trace) : Trace :=
  match graph.summary with
  | .ok summary => (Generating.say options [summary, ""] trace).2
  | .error _ => trace

@[simp] theorem events_announcing (trace : Trace) :
    (announcing options graph trace).events = trace.events := by
  unfold announcing
  cases graph.summary with
  | error err => rfl
  | ok summary => exact events_say _

variable {setup options graph log} {trace final : Trace} {failOn : Option Severity}
  {failure : CheckFailure} {err : Error}

/-- A generation that reaches its first checkpoint goes on with what it announced. -/
theorem Opens.generate_eq (hopens : Opens options graph failOn) :
    generate setup options graph trace =
      generateChecked setup options graph failOn (announcing options graph trace) := by
  rw [generate_run, hopens.accepted]
  unfold announcing
  dsimp only
  cases hverbose : options.verbose with
  | false =>
    have hsilent : ∀ lines, (Generating.say options lines trace).2 = trace := fun lines ↦ by
      simp [Generating.say, hverbose]
    cases graph.summary with
    | error err => rfl
    | ok summary =>
      exact congrArg (generateChecked setup options graph failOn) (hsilent _).symm
  | true =>
    obtain ⟨summary, hsummary⟩ := hopens.announced hverbose
    rw [hsummary]
    rfl

/-- A generation that does not end with a plain error reaches its first checkpoint. -/
theorem exists_opens {result : Except Error Generated}
    (hrun : (generate setup options graph trace).1 = result)
    (hresult : ∀ err, result = .error err → ¬ err.IsPlain) :
    ∃ failOn, Opens options graph failOn := by
  rw [generate_run] at hrun
  cases hvalidate : options.validate with
  | error err =>
    rw [hvalidate] at hrun
    exact absurd (plain_validate options err hvalidate) (hresult err hrun.symm)
  | ok failOn =>
    refine ⟨failOn, hvalidate, fun hverbose ↦ ?_⟩
    cases hsummary : graph.summary with
    | error err =>
      simp only [hvalidate, hverbose, hsummary, if_true] at hrun
      exact absurd (plain_summary graph err hsummary) (hresult err hrun.symm)
    | ok summary => exact ⟨summary, rfl⟩

theorem generateChecked_of_preCodegen {severity : Severity}
    (hclosed : setup.checks.runOnGraph .preCodegen graph (some severity) (some graph.name) =
      .error err) :
    (generateChecked setup options graph (some severity) trace).1 = .error err := by
  unfold generateChecked
  rw [Stateful.run_bind, checkpointFindings_run]
  dsimp only
  rw [hclosed]

theorem generateChecked_of_postEmit {severity : Severity} {findings : List Finding} {body : Body}
    {ledger : Ledger}
    (hpassed : setup.checks.runOnGraph .preCodegen graph (some severity) (some graph.name) =
      .ok findings)
    (hwritten : writeBody setup.ops graph options.style (.fresh trace.events) = (.ok body, ledger))
    (hclosed : setup.checks.runOnLedger .postEmit ledger (some severity) (some graph.name) =
      .error err) :
    (generateChecked setup options graph (some severity) trace).1 = .error err := by
  unfold generateChecked
  rw [Stateful.run_bind, checkpointFindings_run]
  dsimp only
  rw [hpassed]
  dsimp only
  rw [Stateful.run_bind]
  unfold Generating.withLedger
  rw [events_say, hwritten]
  dsimp only
  rw [Stateful.run_bind, checkpointFindings_run]
  dsimp only
  rw [hclosed]

/-- A generation that a failed checkpoint ends fails at one of the two. -/
theorem generate_eq_check_iff :
    (generate setup options graph trace).1 = .error (.check failure) ↔
      ∃ checkpoint, FailsAt setup options graph trace.events checkpoint (.check failure) := by
  constructor
  · intro herror
    obtain ⟨failOn, hopens⟩ := exists_opens herror fun err herr ↦ by
      obtain rfl := Except.error.inj herr
      exact id
    rw [hopens.generate_eq] at herror
    have hstop := generateChecked_eq_error hopens.accepted (Prod.ext herror rfl)
    rw [events_announcing] at hstop
    cases hstop with
    | options hvalidate => exact absurd (plain_validate options _ hvalidate) id
    | summary hsummary => exact absurd (plain_summary graph _ hsummary) id
    | checks hvalidate hchecks => exact ⟨_, .preCodegen ⟨hvalidate, hopens.announced⟩ hchecks⟩
    | body hbody =>
      rcases writeBody_eq_error hbody with hplain | ⟨_, _, hunresolved⟩
      · exact absurd hplain id
      · cases hunresolved
    | drained hvalidate hchecks hbody hdrained =>
      exact ⟨_, .postEmit ⟨hvalidate, hopens.announced⟩ hchecks hbody hdrained⟩
    | text htext => exact absurd (plain_moduleText graph _ _ _ htext) id
  · rintro ⟨checkpoint, hfails⟩
    cases hfails with
    | preCodegen hopens hclosed =>
      rw [hopens.generate_eq]
      exact generateChecked_of_preCodegen hclosed
    | postEmit hopens hpassed hwritten hclosed =>
      rw [hopens.generate_eq]
      rw [← events_announcing options graph trace] at hwritten
      exact generateChecked_of_postEmit hpassed hwritten hclosed

/-- A generation that fails at its first checkpoint under `normal` fails there under `strict`. -/
theorem FailsAt.strict_of_preCodegen
    (hfails : FailsAt setup (options.under "normal") graph log .preCodegen (.check failure)) :
    ∃ other, FailsAt setup (options.under "strict") graph log .preCodegen (.check other) ∧
      other.Agrees failure := by
  cases hfails with
  | preCodegen hopens hclosed =>
    obtain rfl := Option.some.inj (Except.ok.inj (accepted_of_validate hopens.accepted).strictness)
    have hrank : Severity.error.rank ≤ Severity.warning.rank := by decide
    obtain ⟨other, hother, hagrees⟩ := Checks.exists_close_eq_error hrank hclosed
    exact ⟨other, .preCodegen ⟨Options.validate_under hopens.accepted rfl, hopens.announced⟩ hother,
      hagrees⟩

/-- A generation that fails at its second checkpoint under `normal` fails there under `strict`, if
it did not fail before. -/
theorem FailsAt.strict_of_postEmit
    (hfails : FailsAt setup (options.under "normal") graph log .postEmit (.check failure)) :
    ∃ checkpoint other,
      FailsAt setup (options.under "strict") graph log checkpoint (.check other) := by
  cases hfails with
  | postEmit hopens hpassed hwritten hclosed =>
    obtain rfl := Option.some.inj (Except.ok.inj (accepted_of_validate hopens.accepted).strictness)
    have hstrict : Opens (options.under "strict") graph (some .warning) :=
      ⟨Options.validate_under hopens.accepted rfl, hopens.announced⟩
    rcases Checks.close_of_close_eq_ok .warning hpassed with hpassed | ⟨other, hfailed⟩
    · have hrank : Severity.error.rank ≤ Severity.warning.rank := by decide
      obtain ⟨other, hother, _⟩ := Checks.exists_close_eq_error hrank hclosed
      exact ⟨_, other, .postEmit hstrict hpassed hwritten hother⟩
    · exact ⟨_, other, .preCodegen hstrict hfailed⟩

end FailsAt

/-- Strictness only gates. What is generated under `strict` is generated under `normal`, and what is
generated under `normal` is generated under `none` but for the findings, with the same ledger
events. A checkpoint that fails under `normal` leaves no module under `strict`: the first one fails
again with the same findings. And a checkpoint fails exactly when one of the findings of its checks
is serious enough, with all of them in the order of registration, unless a check fails itself. -/
theorem strictness_only_gates (setup : Setup) (options : Options) (graph : Graph) (trace : Trace) :
    (∀ generated final,
      generate setup (options.under "strict") graph trace = (.ok generated, final) →
      generate setup (options.under "normal") graph trace = (.ok generated, final)) ∧
    (∀ generated final,
      generate setup (options.under "normal") graph trace = (.ok generated, final) →
      ∃ silent, generate setup (options.under "none") graph trace =
        (.ok { generated with findings := [] }, silent) ∧ silent.events = final.events) ∧
    (∀ failure,
      (generate setup (options.under "normal") graph trace).1 = .error (.check failure) →
      ∃ other, (generate setup (options.under "strict") graph trace).1 = .error (.check other) ∧
        (FailsAt setup (options.under "normal") graph trace.events .preCodegen (.check failure) →
          FailsAt setup (options.under "strict") graph trace.events .preCodegen (.check other) ∧
          other.Agrees failure)) ∧
    (∀ strictness failure,
      (generate setup (options.under strictness) graph trace).1 = .error (.check failure) ↔
      ∃ checkpoint,
        FailsAt setup (options.under strictness) graph trace.events checkpoint (.check failure)) ∧
    (∀ severity err,
      setup.checks.runOnGraph .preCodegen graph (some severity) (some graph.name) = .error err ↔
      Checks.BreakOff setup.checks.onGraph graph err ∨
        ∃ findings, Checks.Report setup.checks.onGraph graph findings ∧
          (∃ finding ∈ findings, finding.severity.rank ≤ severity.rank) ∧
          err = .check ⟨.preCodegen, findings, severity, some graph.name⟩) ∧
    ∀ ledger severity err,
      setup.checks.runOnLedger .postEmit ledger (some severity) (some graph.name) = .error err ↔
      Checks.BreakOff setup.checks.onLedger ledger err ∨
        ∃ findings, Checks.Report setup.checks.onLedger ledger findings ∧
          (∃ finding ∈ findings, finding.severity.rank ≤ severity.rank) ∧
          err = .check ⟨.postEmit, findings, severity, some graph.name⟩ := by
  have hopened : ∀ {strictness generated final},
      generate setup (options.under strictness) graph trace = (.ok generated, final) →
      ∃ failOn, Opens (options.under strictness) graph failOn := fun hok ↦
    exists_opens (congrArg Prod.fst hok) fun _ herror ↦ by cases herror
  refine ⟨?_, ?_, ?_, fun _ _ ↦ generate_eq_check_iff, fun _ _ ↦ Checks.close_eq_error_iff,
    fun _ _ _ ↦ Checks.close_eq_error_iff⟩
  · intro generated final hok
    obtain ⟨failOn, hopens⟩ := hopened hok
    obtain rfl := Except.ok.inj (accepted_of_validate hopens.accepted).strictness
    have hnormal : Opens (options.under "normal") graph (some .error) :=
      ⟨Options.validate_under hopens.accepted rfl, hopens.announced⟩
    rw [hopens.generate_eq] at hok
    rw [hnormal.generate_eq]
    exact generateChecked_eq_ok_of_lenient (by decide) hok
  · intro generated final hok
    obtain ⟨failOn, hopens⟩ := hopened hok
    have hnone : Opens (options.under "none") graph none :=
      ⟨Options.validate_under hopens.accepted rfl, hopens.announced⟩
    rw [hopens.generate_eq] at hok
    rw [hnone.generate_eq]
    exact generateChecked_eq_ok_of_unchecked hok
  · intro failure herror
    obtain ⟨checkpoint, hfails⟩ := generate_eq_check_iff.mp herror
    by_cases hfirst :
        FailsAt setup (options.under "normal") graph trace.events .preCodegen (.check failure)
    · obtain ⟨other, hother, hagrees⟩ := hfirst.strict_of_preCodegen
      exact ⟨other, generate_eq_check_iff.mpr ⟨_, hother⟩, fun _ ↦ ⟨hother, hagrees⟩⟩
    · cases checkpoint with
      | preCodegen => exact absurd hfails hfirst
      | postEmit =>
        obtain ⟨_, other, hother⟩ := hfails.strict_of_postEmit
        exact ⟨other, generate_eq_check_iff.mpr ⟨_, hother⟩, fun h ↦ absurd h hfirst⟩

/-- A graph that returns a name without a tensor. -/
def unbound : Graph := { name := "unbound", outputs := ["y"] }

/-- The missing tensor is found at the first checkpoint, with the same findings at both severities.
-/
theorem strictness_only_gates_unbound :
    ∃ failure other,
      FailsAt standardSetup (Options.under {} "normal") unbound none .preCodegen (.check failure) ∧
      FailsAt standardSetup (Options.under {} "strict") unbound none .preCodegen (.check other) ∧
      other.Agrees failure := by
  have haccepted : (Options.under {} "normal").validate.toOption = some (some .error) := by
    decide +kernel
  have hserious : ((Checks.collect standardSetup.checks.onGraph unbound).toOption.map
      fun findings ↦ anyReaches findings .error) = some true := by decide +kernel
  obtain ⟨findings, hfindings, hreaches⟩ := Option.map_eq_some_iff.mp hserious
  have hreport := Checks.collect_eq_ok_iff.mp (Result.eq_ok_of_toOption_eq_some hfindings)
  have hopens : Opens (Options.under {} "normal") unbound (some .error) :=
    ⟨Result.eq_ok_of_toOption_eq_some haccepted, fun hverbose ↦ by cases hverbose⟩
  have hfails :
      FailsAt standardSetup (Options.under {} "normal") unbound none .preCodegen _ :=
    .preCodegen hopens (Checks.close_eq_error_iff.mpr
      (.inr ⟨findings, hreport, Checks.anyReaches_iff.mp hreaches, rfl⟩))
  obtain ⟨other, _, hagrees⟩ := (strictness_only_gates standardSetup {} unbound {}).2.2.1 _
    (generate_eq_check_iff.mpr ⟨_, hfails⟩)
  exact ⟨_, other, hfails, hagrees hfails⟩

end Handover
