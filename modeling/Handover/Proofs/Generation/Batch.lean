import Handover.Proofs.Check.Prediction
import Handover.Proofs.OrderedMap
import Handover.Proofs.Program.Log

/-!
# Generating several modules

What is generated for a graph does not depend on what was printed or logged before
(`overlooksTrace_generate`), so the graphs of a batch do not depend on one another. A batch holds
the module of every graph that is generated by itself and the error of every graph that is stopped
by a ledger fault or by a failed checkpoint (`Batch.Collects`). Any other error is not set aside:
the first one ends the whole batch (`generateAll_isolates`, `batch_ended_by_one_graph`).
-/

set_option autoImplicit false
set_option relaxedAutoImplicit false

namespace Handover

/-! ### Steps that overlook the trace -/

namespace Generating

variable {α β : Type}

/-- Whether the result of a step of generation does not depend on the trace before it. -/
def OverlooksTrace (step : Generating α) : Prop :=
  ∀ trace other : Trace, (step trace).1 = (step other).1

theorem overlooksTrace_lift (result : Result α) : OverlooksTrace (lift result) := fun _ _ ↦ rfl

theorem overlooksTrace_pure (value : α) : OverlooksTrace (pure value : Generating α) :=
  fun _ _ ↦ rfl

theorem overlooksTrace_say (options : Options) (lines : List String) :
    OverlooksTrace (say options lines) := fun _ _ ↦ rfl

theorem OverlooksTrace.bind {first : Generating α} {next : α → Generating β}
    (hfirst : OverlooksTrace first) (hnext : ∀ value, OverlooksTrace (next value)) :
    OverlooksTrace (first >>= next) := by
  intro trace other
  have hsame := hfirst trace other
  rw [Stateful.run_bind, Stateful.run_bind]
  revert hsame
  rcases first trace with ⟨err | value, reached⟩ <;>
    rcases first other with ⟨_ | _, reachedOther⟩ <;> intro hsame
  · exact congrArg Except.error (Except.error.inj hsame)
  · cases hsame
  · cases hsame
  · obtain rfl := Except.ok.inj hsame
    exact hnext _ reached reachedOther

/-- A computation on a fresh ledger, and what follows it: neither the trace nor the log counts, if
the computation and what follows overlook the log. -/
theorem overlooksTrace_withLedger_bind {computation : Bookkeeping α}
    {next : α × Ledger → Generating β} (hcomputation : computation.OverlooksLog)
    (hnext : ∀ reached, OverlooksTrace (next reached))
    (hlog : ∀ value (ledger : Ledger), next (value, ledger.withoutLog) = next (value, ledger)) :
    OverlooksTrace (withLedger computation >>= next) := by
  have hplain (trace : Trace) : ((withLedger computation >>= next) trace).1 =
      (computation (Ledger.fresh none)).1 >>= fun value ↦
        (next (value, (computation (Ledger.fresh none)).2) {}).1 := by
    have hfresh : computation (Ledger.fresh none) = _ := hcomputation (Ledger.fresh trace.events)
    rw [Stateful.run_bind, withLedger, hfresh]
    rcases computation (Ledger.fresh trace.events) with ⟨err | value, ledger⟩
    · rfl
    · rw [Result.ok_bind, hlog]
      exact hnext _ _ _
  intro trace other
  rw [hplain, hplain]

end Generating

open Generating

section Generate

variable (ops : List Op) (options : Options) (graph : Graph)

theorem overlooksTrace_checkpointFindings (failOn : Option Severity)
    (run : Option Severity → Result (List Finding)) :
    OverlooksTrace (checkpointFindings options failOn run) := by
  intro trace other
  rw [checkpointFindings_run, checkpointFindings_run]
  cases failOn with
  | none => rfl
  | some severity =>
    dsimp only
    cases run (some severity) <;> rfl

theorem overlooksTrace_generateChecked (failOn : Option Severity) :
    OverlooksTrace (generateChecked ⟨ops, standardChecks ops⟩ options graph failOn) := by
  unfold generateChecked
  refine .bind (overlooksTrace_checkpointFindings options failOn _) fun before ↦
    overlooksTrace_withLedger_bind (overlooksLog_writeBody ops graph options.style) ?_ ?_
  · rintro ⟨body, ledger⟩
    exact .bind (overlooksTrace_checkpointFindings options failOn _) fun after ↦
      .bind (overlooksTrace_lift _) fun source ↦
        .bind (overlooksTrace_say options _) fun _ ↦ overlooksTrace_pure _
  · -- The checks of the ledger read its generations only.
    intro body ledger
    rfl

/-- What is generated for a graph does not depend on the trace. -/
theorem overlooksTrace_generate :
    OverlooksTrace (generate ⟨ops, standardChecks ops⟩ options graph) := by
  intro trace other
  rw [generate_run, generate_run]
  cases options.validate with
  | error err => rfl
  | ok failOn =>
    dsimp only
    split_ifs
    · cases graph.summary with
      | error err => rfl
      | ok summary => exact overlooksTrace_generateChecked ops options graph failOn _ _
    · exact overlooksTrace_generateChecked ops options graph failOn _ _

end Generate

/-! ### Batches -/

section Batches

/-- What generating the module of a graph by itself gives. -/
def outcomeAlone (ops : List Op) (options : Options) (alone : Trace) (graph : Graph) :
    Result Generated :=
  (generate ⟨ops, standardChecks ops⟩ options graph alone).1

/-- Whether an outcome is a module or an error that stops one graph only. -/
def IsConfined (outcome : Result Generated) : Prop :=
  ∀ err, outcome = .error err → err.isOfOneGraph = true

namespace Batch

/-- The batch with the outcome of one more graph. -/
def record (batch : Batch) (name : String) : Result Generated → Result Batch
  | .ok generated => .ok { batch with generated := batch.generated.insert name generated }
  | .error err =>
    if err.isOfOneGraph then .ok { batch with failures := batch.failures.insert name err }
    else .error err

theorem add_run (setup : Setup) (options : Options) (batch : Batch) (graph : Graph)
    (trace : Trace) : (batch.add setup options graph trace).1 =
      batch.record graph.name (generate setup options graph trace).1 := by
  unfold add record
  rcases generate setup options graph trace with ⟨err | generated, reached⟩
  · dsimp only
    split_ifs <;> rfl
  · rfl

/-- Whether a map has, at the name of every one of some graphs, a part of the outcome of the graph
if the outcome has that part, and nothing elsewhere. -/
structure Keeps {α : Type} (part : Result Generated → Option α) (outcome : Graph → Result Generated)
    (graphs : List Graph) (map : OrderedMap String α) : Prop where
  here : ∀ graph ∈ graphs, map.find? graph.name = part (outcome graph)
  elsewhere : ∀ name, name ∉ graphs.map Graph.name → map.find? name = none

/-- Whether a batch holds the outcomes of some graphs and nothing else: the modules are the
generated ones and the errors are the failures. -/
structure Collects (outcome : Graph → Result Generated) (graphs : List Graph) (batch : Batch) :
    Prop where
  generated : Keeps Except.toOption outcome graphs batch.generated
  failures : Keeps Result.error? outcome graphs batch.failures

section Keeps

variable {α : Type} {part : Result Generated → Option α} {outcome : Graph → Result Generated}
  {done : List Graph} {map : OrderedMap String α} {graph : Graph}

theorem Keeps.skip (hkeeps : Keeps part outcome done map) (hname : graph.name ∉ done.map Graph.name)
    (hpart : part (outcome graph) = none) : Keeps part outcome (done ++ [graph]) map where
  here := by
    intro other hother
    rcases List.mem_append.mp hother with hother | hother
    · exact hkeeps.here other hother
    · obtain rfl := List.mem_singleton.mp hother
      rw [hkeeps.elsewhere _ hname, hpart]
  elsewhere := by
    intro name hother
    rw [List.map_append, List.mem_append, not_or] at hother
    exact hkeeps.elsewhere name hother.1

theorem Keeps.insert (hkeeps : Keeps part outcome done map)
    (hname : graph.name ∉ done.map Graph.name) {value : α}
    (hpart : part (outcome graph) = some value) :
    Keeps part outcome (done ++ [graph]) (map.insert graph.name value) where
  here := by
    intro other hother
    rcases List.mem_append.mp hother with hother | hother
    · have hne : other.name ≠ graph.name := fun heq ↦ hname (heq ▸ List.mem_map_of_mem hother)
      rw [OrderedMap.find?_insert_of_ne _ hne]
      exact hkeeps.here other hother
    · obtain rfl := List.mem_singleton.mp hother
      rw [OrderedMap.find?_insert_self, hpart]
  elsewhere := by
    intro name hother
    rw [List.map_append, List.mem_append, not_or] at hother
    rw [OrderedMap.find?_insert_of_ne _ (by simpa using hother.2)]
    exact hkeeps.elsewhere name hother.1

end Keeps

section Runs

variable {outcome : Graph → Result Generated} {batch : Batch} {done graphs : List Graph}
  {graph : Graph}

theorem collects_empty (outcome : Graph → Result Generated) : ({} : Batch).Collects outcome [] where
  generated := ⟨by simp, fun _ _ ↦ rfl⟩
  failures := ⟨by simp, fun _ _ ↦ rfl⟩

/-- A confined outcome of a graph of a new name is collected, and any other ends the batch. -/
theorem Collects.record (hcollects : batch.Collects outcome done)
    (hname : graph.name ∉ done.map Graph.name) :
    (IsConfined (outcome graph) ∧ ∃ reached,
      batch.record graph.name (outcome graph) = .ok reached ∧
        reached.Collects outcome (done ++ [graph])) ∨
    ∃ err, outcome graph = .error err ∧ err.isOfOneGraph = false ∧
      batch.record graph.name (outcome graph) = .error err := by
  cases houtcome : outcome graph with
  | ok generated =>
    refine .inl ⟨fun _ herr ↦ (by cases herr), _, rfl, ?_, ?_⟩
    · exact hcollects.generated.insert hname (by rw [houtcome]; rfl)
    · exact hcollects.failures.skip hname (by rw [houtcome]; rfl)
  | error err =>
    cases hconfined : err.isOfOneGraph with
    | false => exact .inr ⟨err, rfl, hconfined, by simp [Batch.record, hconfined]⟩
    | true =>
      refine .inl ⟨fun _ herr ↦ Except.error.inj herr ▸ hconfined, _, if_pos hconfined, ?_, ?_⟩
      · exact hcollects.generated.skip hname (by rw [houtcome]; rfl)
      · exact hcollects.failures.insert hname (by rw [houtcome]; rfl)

/-- How a batch ends: with the outcomes of all graphs when they are confined, and otherwise with the
first error that is not. -/
inductive Ends (outcome : Graph → Result Generated) (done graphs : List Graph) :
    Result Batch → Prop
  | collected {batch : Batch} (hconfined : ∀ graph ∈ graphs, IsConfined (outcome graph))
    (hcollects : batch.Collects outcome (done ++ graphs)) : Ends outcome done graphs (.ok batch)
  | stopped (before : List Graph) (graph : Graph) (after : List Graph) (err : Error)
    (hgraphs : graphs = before ++ graph :: after)
    (hbefore : ∀ earlier ∈ before, IsConfined (outcome earlier))
    (herr : outcome graph = .error err) (hends : err.isOfOneGraph = false) :
    Ends outcome done graphs (.error err)

/-- A graph with a confined outcome does not count for how the graphs after it end. -/
theorem Ends.cons {rest : List Graph} {result : Result Batch}
    (hconfined : IsConfined (outcome graph)) (hends : Ends outcome (done ++ [graph]) rest result) :
    Ends outcome done (graph :: rest) result := by
  cases hends with
  | collected hrest hcollects =>
    rw [← List.append_cons] at hcollects
    exact .collected (List.forall_mem_cons.mpr ⟨hconfined, hrest⟩) hcollects
  | stopped before other after err hgraphs hbefore herr hends =>
    exact .stopped (graph :: before) other after err (by rw [hgraphs, List.cons_append])
      (List.forall_mem_cons.mpr ⟨hconfined, hbefore⟩) herr hends

/-- The induction is on the graphs that are left, from a batch of those that are done. -/
theorem Collects.ends (hcollects : batch.Collects outcome done)
    (hnames : ((done ++ graphs).map Graph.name).Nodup) :
    Ends outcome done graphs
      (graphs.foldlM (fun batch graph ↦ batch.record graph.name (outcome graph)) batch) := by
  induction graphs generalizing done batch with
  | nil => exact .collected (by simp) (by rwa [List.append_nil])
  | cons graph rest ih =>
    have hname : graph.name ∉ done.map Graph.name := fun hmem ↦ by
      rw [List.map_append] at hnames
      exact (List.nodup_append.mp hnames).2.2 _ hmem _ (List.mem_cons_self ..) rfl
    rw [List.foldlM_cons]
    rcases hcollects.record hname with
      ⟨hconfined, reached, hreached, hmore⟩ | ⟨err, herr, hends, hstop⟩
    · rw [hreached, Result.ok_bind]
      rw [List.append_cons] at hnames
      exact (ih hmore hnames).cons hconfined
    · rw [hstop]
      exact .stopped [] graph rest err rfl (by simp) herr hends

end Runs

section GenerateAll

variable (ops : List Op) (options : Options)

/-- Generating the modules of a list of graphs collects what generating each of them by itself
gives. -/
theorem foldlM_add_run (alone trace : Trace) (graphs : List Graph) (batch : Batch) :
    (graphs.foldlM (Batch.add ⟨ops, standardChecks ops⟩ options) batch trace).1 =
      graphs.foldlM (fun batch graph ↦
        batch.record graph.name (outcomeAlone ops options alone graph)) batch := by
  induction graphs generalizing batch trace with
  | nil => rfl
  | cons graph rest ih =>
    have hadd : (batch.add ⟨ops, standardChecks ops⟩ options graph trace).1 =
        batch.record graph.name (outcomeAlone ops options alone graph) := by
      rw [add_run, outcomeAlone, overlooksTrace_generate ops options graph trace alone]
    rw [List.foldlM_cons, List.foldlM_cons, Stateful.run_bind, ← hadd]
    rcases batch.add ⟨ops, standardChecks ops⟩ options graph trace with ⟨err | reached, trace⟩
    · rfl
    · exact ih trace reached

end GenerateAll

end Batch

theorem repeatedNames_of_nodup {names : List String} (hnames : names.Nodup) :
    repeatedNames names = [] := by
  refine List.filter_eq_nil_iff.mpr fun name hname ↦ ?_
  have hcount := List.nodup_iff_count_le_one.mp hnames name
  simpa using hcount

variable (ops : List Op) (options : Options) {graphs : List Graph}

theorem generateAll_run (hnames : (graphs.map Graph.name).Nodup) (trace : Trace) :
    generateAll ⟨ops, standardChecks ops⟩ options graphs trace =
      graphs.foldlM (Batch.add ⟨ops, standardChecks ops⟩ options) {} trace := by
  unfold generateAll
  rw [repeatedNames_of_nodup hnames]
  rfl

/-- Assumes: the graphs have different names. Their modules are generated if each graph, generated
by itself, has a module or an error that stops one graph only, and then the batch holds just what
they have by themselves. Otherwise the first error of another kind is that of the batch. -/
theorem generateAll_isolates (hnames : (graphs.map Graph.name).Nodup) (trace alone : Trace) :
    (Result.Returns (generateAll ⟨ops, standardChecks ops⟩ options graphs trace).1 ↔
      ∀ graph ∈ graphs, IsConfined (outcomeAlone ops options alone graph)) ∧
    (∀ batch, (generateAll ⟨ops, standardChecks ops⟩ options graphs trace).1 = .ok batch →
      batch.Collects (outcomeAlone ops options alone) graphs) ∧
    ∀ err, (generateAll ⟨ops, standardChecks ops⟩ options graphs trace).1 = .error err →
      err.isOfOneGraph = false ∧ ∃ before graph after, graphs = before ++ graph :: after ∧
        (∀ earlier ∈ before, IsConfined (outcomeAlone ops options alone earlier)) ∧
        outcomeAlone ops options alone graph = .error err := by
  have hends := (Batch.collects_empty (outcomeAlone ops options alone)).ends hnames
  rw [← Batch.foldlM_add_run ops options alone trace, ← generateAll_run ops options hnames] at hends
  generalize (generateAll ⟨ops, standardChecks ops⟩ options graphs trace).1 = result at hends ⊢
  cases hends with
  | @collected batch hconfined hcollects =>
    refine ⟨⟨fun _ ↦ hconfined, fun _ ↦ ⟨batch, rfl⟩⟩, fun other hother ↦ ?_, fun _ herr ↦ ?_⟩
    · exact Except.ok.inj hother ▸ hcollects
    · cases herr
  | stopped before graph after err hgraphs hbefore herr hends =>
    refine ⟨⟨?_, fun hconfined ↦ ?_⟩, fun _ hbatch ↦ ?_, fun other hother ↦ ?_⟩
    · rintro ⟨_, hbatch⟩
      cases hbatch
    · have hmem : graph ∈ graphs := by simp [hgraphs]
      rw [hconfined graph hmem err herr] at hends
      cases hends
    · cases hbatch
    · obtain rfl := Except.error.inj hother
      exact ⟨hends, before, graph, after, hgraphs, hbefore, herr⟩

/-- A graph of one node, which has no attributes and reads a value that is given or is not. -/
def oneNode (name : String) (op : Op) (given : Bool) : Result Graph :=
  Graph.make name
    [if given then .input "x" [.int 2] "float32" else .tensor "x" [.int 2] "float32",
      .tensor "y" [.int 2] "float32", .node op ["x"] ["y"] {}] ["y"]

/-- A graph whose module can be written. -/
def complete : Graph := (oneNode "complete" .relu true).toOption.get rfl

/-- A graph that reads a value that nothing provides. -/
def unprovided : Graph := (oneNode "unprovided" .relu false).toOption.get rfl

/-- A graph that takes a sum without an axis. -/
def axisless : Graph := (oneNode "axisless" .sum true).toOption.get rfl

/-- The options under which no check runs. -/
def unchecked : Options := { strictness := "none" }

/-- A graph that a ledger fault stops is set aside, and the graph after it has the module that it
has by itself. -/
theorem generateAll_isolates_unprovided :
    ∃ batch, (generateAll standardSetup unchecked [unprovided, complete] {}).1 = .ok batch ∧
      (∃ failure, batch.failures.find? "unprovided" = some (.generation failure)) ∧
      batch.generated.find? "unprovided" = none ∧ batch.failures.find? "complete" = none ∧
      ∃ generated, batch.generated.find? "complete" = some generated ∧
        outcomeAlone Op.catalog unchecked {} complete = .ok generated := by
  have hnames : ([unprovided, complete].map Graph.name).Nodup := by decide +kernel
  obtain ⟨generated, hcomplete⟩ : (outcomeAlone Op.catalog unchecked {} complete).Returns :=
    Result.returns_of_isSome (by decide +kernel)
  have hfirst : unprovided.firstUnresolved? = some (⟨some 0, 0⟩, "x") := by decide +kernel
  obtain ⟨failure, hunprovided⟩ : ∃ failure,
      outcomeAlone Op.catalog unchecked {} unprovided = .error (.generation failure) :=
    ⟨_, (generate_unchecked_iff rfl rfl).mpr ⟨_, hfirst, rfl⟩⟩
  obtain ⟨hreturns, hcollects, -⟩ := generateAll_isolates Op.catalog unchecked hnames {} {}
  obtain ⟨batch, hbatch⟩ := hreturns.mpr (by
    rw [List.forall_mem_cons, List.forall_mem_singleton, hunprovided, hcomplete]
    refine ⟨fun err herr ↦ ?_, fun err herr ↦ ?_⟩
    · obtain rfl := Except.error.inj herr
      rfl
    · cases herr)
  obtain ⟨⟨hgenerated, _⟩, hfailures, _⟩ := hcollects batch hbatch
  rw [List.forall_mem_cons, List.forall_mem_singleton, hunprovided, hcomplete] at hgenerated
  rw [List.forall_mem_cons, List.forall_mem_singleton, hunprovided, hcomplete] at hfailures
  exact ⟨batch, hbatch, ⟨_, hfailures.1⟩, hgenerated.1, hfailures.2, generated, hgenerated.2,
    hcomplete⟩

/-- One sum without an axis ends a batch whose other graph has a module by itself. -/
theorem batch_ended_by_one_graph :
    complete.Built ∧ axisless.Built ∧ ([complete, axisless].map Graph.name).Nodup ∧
      unchecked.validate = .ok none ∧ (outcomeAlone Op.catalog unchecked {} complete).Returns ∧
      ∃ err, (generateAll standardSetup unchecked [complete, axisless] {}).1 = .error err ∧
        err.message? = some "'axis'" := by
  have hmessage :
      (Result.error? (generateAll standardSetup unchecked [complete, axisless] {}).1).bind
        Error.message? = some "'axis'" := by decide +kernel
  refine ⟨(Graph.built_make _ _ _).get rfl, (Graph.built_make _ _ _).get rfl, by decide +kernel,
    rfl, Result.returns_of_isSome (by decide +kernel), ?_⟩
  obtain ⟨err, herr, htext⟩ := Option.bind_eq_some_iff.mp hmessage
  exact ⟨err, Result.eq_error_of_error?_eq_some herr, htext⟩

end Batches

end Handover
