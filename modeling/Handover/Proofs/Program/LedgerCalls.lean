import Handover.Proofs.Ledger.Calls
import Handover.Proofs.Generation.Outcome
import Handover.Proofs.Program.Unresolved

/-!
# The calls on the ledger of a graph

The two walks of a graph make calls on its ledger (`Graph.ledgerCalls`): the registrations of the
first walk, the end of the building phase, and the uses that the second walk resolves
(`Graph.resolvedUses`). A computation makes the calls of a list when it leaves the ledger that its
first calls leave, and all of them when it succeeds (`Bookkeeping.Makes`). Such computations
compose, so writing a body makes the calls of its graph, as far as it gets (`makes_writeBody`), and
so does a generation in every mode (`makesFresh_generate`). What the calls register is what they
resolve and the returned constants (`Graph.registered_perm`).
-/

set_option autoImplicit false
set_option relaxedAutoImplicit false

namespace Handover

/-! ### The calls of a graph -/

/-- The name and the position of the use that a call registers. -/
def Ledger.Call.registers? : Ledger.Call → Option (String × Int)
  | futureUse name position => some (name, position)
  | _ => none

/-- The name and the position of the use that a call resolves. -/
def Ledger.Call.resolves? : Ledger.Call → Option (String × Int)
  | resolve name position => some (name, position)
  | _ => none

/-- The call that a registration makes. -/
def BuildCall.call : BuildCall → Ledger.Call
  | produce name position => .produce name position
  | futureUse site name => .futureUse name site.position

/-- The call that resolves a use at its site. -/
def resolveCall (entry : Site × String) : Ledger.Call := .resolve entry.2 entry.1.position

namespace Graph

variable (graph : Graph)

/-- The reads of variables among some names, with a site. -/
def variablesAt (site : Site) (names : List String) : List (Site × String) :=
  (graph.variableNames names).map fun name ↦ (site, name)

/-- The reads of the nodes, with their sites. -/
def nodeReads : List (Site × String) :=
  graph.nodes.zipIdx.flatMap fun entry ↦
    graph.variablesAt ⟨some entry.1.id, entry.2⟩ entry.1.inputs

/-- The uses that the second walk resolves, with their sites and in its order. -/
def resolvedUses : List (Site × String) :=
  graph.nodeReads ++ graph.variablesAt graph.returnSite graph.outputs ++
    graph.inputs.map fun name ↦ (⟨none, 0⟩, name)

/-- The calls that the two walks of a graph make. -/
def ledgerCalls : List Ledger.Call :=
  graph.buildCalls.map BuildCall.call ++ .beginEmit :: graph.resolvedUses.map resolveCall

end Graph

/-! ### Computations that make calls -/

namespace Bookkeeping

variable {α β : Type}

/-- A computation makes the calls of a list in order: it leaves the ledger that the first of them
leave, refused ones included, and has made all of them when it succeeds. -/
def Makes (computation : Bookkeeping α) (calls : List Ledger.Call) : Prop :=
  ∀ ledger : Ledger, ∃ made, made <+: calls ∧ (computation ledger).2 = ledger.after made ∧
    (Result.Returns (computation ledger).1 → made = calls)

theorem makes_lift (result : Result α) : Makes (lift result) [] :=
  fun _ ↦ ⟨[], List.prefix_rfl, rfl, fun _ ↦ rfl⟩

theorem makes_pure (value : α) : Makes (pure value : Bookkeeping α) [] :=
  fun _ ↦ ⟨[], List.prefix_rfl, rfl, fun _ ↦ rfl⟩

theorem Makes.bind {first : Bookkeeping α} {next : α → Bookkeeping β}
    {calls more : List Ledger.Call} (hfirst : Makes first calls)
    (hnext : ∀ value, Makes (next value) more) : Makes (first >>= next) (calls ++ more) := by
  intro ledger
  obtain ⟨made, hmade, hreached, hall⟩ := hfirst ledger
  rw [Stateful.run_bind]
  rcases hrun : first ledger with ⟨err | value, reached⟩
  · rw [hrun] at hreached
    refine ⟨made, hmade.trans (List.prefix_append _ _), hreached, ?_⟩
    rintro ⟨_, hvalue⟩
    cases hvalue
  · rw [hrun] at hreached hall
    obtain rfl := hall ⟨value, rfl⟩
    obtain ⟨others, hothers, hfinal, hrest⟩ := hnext value reached
    refine ⟨made ++ others, (List.prefix_append_right_inj made).mpr hothers, ?_, ?_⟩
    · dsimp only at hreached ⊢
      rw [hfinal, hreached, Ledger.after, Ledger.after, Ledger.after, List.foldl_append]
    · exact fun hreturns ↦ congrArg _ (hrest hreturns)

theorem Makes.mapM {items : List α} {call : α → Bookkeeping β} {callsOf : α → List Ledger.Call}
    (hcall : ∀ item ∈ items, Makes (call item) (callsOf item)) :
    Makes (items.mapM call) (items.flatMap callsOf) := by
  induction items with
  | nil => exact makes_pure []
  | cons item rest ih =>
    have hrest := ih fun other hother ↦ hcall other (List.mem_cons_of_mem _ hother)
    have hboth := (hcall item (List.mem_cons_self ..)).bind fun value ↦
      hrest.bind fun values ↦ makes_pure (value :: values)
    rw [List.append_nil] at hboth
    rwa [List.mapM_cons, List.flatMap_cons]

theorem Makes.forM {call : α → Bookkeeping Unit} {callOf : α → Ledger.Call}
    (hcall : ∀ item, Makes (call item) [callOf item]) (items : List α) :
    Makes (items.forM call) (items.map callOf) := by
  induction items with
  | nil => exact makes_pure ()
  | cons item rest ih => exact (hcall item).bind fun _ ↦ ih

/-- Assumes: a computation that leaves what a call leaves. -/
theorem makes_of_write {computation : Bookkeeping α} {call : Ledger.Call}
    (hwrite : ∀ ledger, (computation ledger).2 = (call.write ledger).2) :
    Makes computation [call] :=
  fun ledger ↦ ⟨[call], List.prefix_rfl, hwrite ledger, fun _ ↦ rfl⟩

end Bookkeeping

open Bookkeeping

section Body

variable (ops : List Op) (graph : Graph) (style : ReferenceStyle)

theorem makes_perform (graphName : String) (call : BuildCall) :
    Makes (call.perform graphName) [call.call] := by
  refine makes_of_write fun ledger ↦ ?_
  rw [Ledger.Call.write_eq]
  cases call with
  | produce name position =>
    simp only [BuildCall.perform, BuildCall.call, plainCall, Ledger.attempt]
    cases ledger.produce name position <;> rfl
  | futureUse site name =>
    simp only [BuildCall.perform, BuildCall.call, Bookkeeping.call, Ledger.attempt]
    cases ledger.futureUse name site.position <;> rfl

theorem makes_buildLedger :
    Makes (buildLedger graph) (graph.buildCalls.map BuildCall.call ++ [.beginEmit]) := by
  have hcalls := Makes.forM (makes_perform graph.name) graph.buildCalls
  refine hcalls.bind fun _ ↦ makes_of_write fun ledger ↦ ?_
  rw [Ledger.Call.write_eq, plainCall, Ledger.attempt]
  cases ledger.beginEmit <;> rfl

theorem makes_resolveUse (site : Site) (name : String) :
    Makes (resolveUse graph site name) [resolveCall (site, name)] := by
  refine makes_of_write fun ledger ↦ ?_
  rw [Ledger.Call.write_eq, resolveUse, Bookkeeping.call, resolveCall, Ledger.attempt]
  cases ledger.resolve name site.position <;> rfl

/-- A constant is read without a call. -/
theorem makes_emitReference (site : Site) (name : String) (owned : Bool) :
    Makes (emitReference graph style site name owned)
      ((graph.variablesAt site [name]).map resolveCall) := by
  unfold emitReference
  cases hname : graph.isConstant name with
  | true =>
    simpa [Graph.variablesAt, Graph.variableNames, hname] using makes_lift _
  | false =>
    simpa [Graph.variablesAt, Graph.variableNames, hname] using
      (makes_resolveUse graph site name).bind fun _ ↦ makes_lift _

theorem flatMap_variablesAt (site : Site) (names : List String) :
    (names.flatMap fun name ↦ graph.variablesAt site [name]) = graph.variablesAt site names := by
  induction names with
  | nil => rfl
  | cons name rest ih =>
    rw [List.flatMap_cons, ih]
    cases hname : graph.isConstant name <;> simp [Graph.variablesAt, Graph.variableNames, hname]

/-- The references of some slots make the calls of their names. -/
theorem makes_references {γ : Type} (site : Site) (name : γ → String) (owned : γ → Bool)
    (slots : List γ) :
    Makes (slots.mapM fun slot ↦ emitReference graph style site (name slot) (owned slot))
      ((graph.variablesAt site (slots.map name)).map resolveCall) := by
  have hcalls := Makes.mapM fun slot (_ : slot ∈ slots) ↦
    makes_emitReference graph style site (name slot) (owned slot)
  rwa [← List.map_flatMap, ← List.flatMap_map name fun name ↦ graph.variablesAt site [name],
    flatMap_variablesAt] at hcalls

theorem makes_emitStatement (node : Node) (index : Nat) :
    Makes (emitStatement ops graph style node index)
      ((graph.variablesAt ⟨some node.id, index⟩ node.inputs).map resolveCall) := by
  have hreferences := fun owned ↦ makes_references graph style ⟨some node.id, index⟩ Prod.fst
    (fun slot ↦ owned && slot.2 == 0) node.inputs.zipIdx
  rw [List.zipIdx_map_fst] at hreferences
  have hcalls := (makes_lift (ownsFirstInput ops graph node)).bind fun owned ↦
    (hreferences owned).bind fun references ↦
      (makes_lift (nodeExpression ops graph node (references.map Reference.text))).bind
        fun expression ↦ makes_pure (⟨node, owned, references, expression⟩ : Statement)
  simp only [List.nil_append, List.append_nil] at hcalls
  exact hcalls

theorem makes_emitBody :
    Makes (emitBody ops graph style) (graph.resolvedUses.map resolveCall) := by
  have hstatements := Makes.mapM fun (entry : Node × Nat) (_ : entry ∈ graph.nodes.zipIdx) ↦
    makes_emitStatement ops graph style entry.1 entry.2
  have hreturned :=
    makes_references graph style graph.returnSite id (fun _ ↦ true) graph.outputs
  have hreleased := Makes.forM (fun name ↦
    (makes_resolveUse graph ⟨none, 0⟩ name).bind fun _ ↦ makes_pure ()) graph.inputs
  have hcalls := hstatements.bind fun statements ↦ hreturned.bind fun returned ↦
    hreleased.bind fun _ ↦ makes_pure (⟨statements, returned⟩ : Body)
  rw [List.append_nil, ← List.map_flatMap, List.map_id] at hcalls
  rw [Graph.resolvedUses, List.map_append, List.map_append, List.append_assoc, List.map_map]
  exact hcalls

/-- Writing a body makes the calls of its graph. -/
theorem makes_writeBody : Makes (writeBody ops graph style) graph.ledgerCalls := by
  have hcalls := (makes_buildLedger graph).bind fun _ ↦ makes_emitBody ops graph style
  rwa [List.append_assoc] at hcalls

end Body

/-! ### What is registered and what is resolved -/

namespace Graph

variable (graph : Graph)

/-- The uses that the caller makes of the inputs, by name and position. -/
def callerUses : List (String × Int) := graph.inputs.map fun name ↦ (name, 0)

/-- The uses that the nodes make of variables, by name and position. -/
def nodeUses : List (String × Int) :=
  graph.nodes.zipIdx.flatMap fun entry ↦
    (graph.variableNames entry.1.inputs).map fun name ↦ (name, (entry.2 : Int))

/-- The uses that the return statement makes of some names, by name and position. -/
def returnUses (names : List String) : List (String × Int) :=
  names.map fun name ↦ (name, (graph.nodes.length : Int))

/-- The uses that the calls of a graph register. -/
def registered : List (String × Int) := graph.ledgerCalls.filterMap Ledger.Call.registers?

/-- The uses that the calls of a graph resolve. -/
def resolved : List (String × Int) := graph.ledgerCalls.filterMap Ledger.Call.resolves?

variable {graph}

/-- A node makes no use of a constant. -/
theorem isConstant_of_mem_nodeUses {use : String × Int} (huse : use ∈ graph.nodeUses) :
    graph.isConstant use.1 = false := by
  obtain ⟨entry, _, huse⟩ := List.mem_flatMap.mp huse
  obtain ⟨name, hname, rfl⟩ := List.mem_map.mp huse
  simpa using (List.mem_filter.mp hname).2

variable (graph)

/-- The first walk registers the hold of the caller on each input, the reads of the nodes, and every
output. -/
theorem registeredUses_eq :
    graph.registeredUses = graph.inputs.map (fun name ↦ (⟨none, 0⟩, name)) ++ graph.nodeReads ++
      graph.outputs.map fun name ↦ (graph.returnSite, name) := by
  rw [registeredUses, buildCalls, List.filterMap_append, List.filterMap_append,
    List.filterMap_flatMap, List.filterMap_flatMap, filterMap_read?_futureUses]
  simp only [nodeCalls, List.filterMap_append, filterMap_read?_futureUses,
    filterMap_read?_produces, List.append_nil]
  congr 2
  exact List.flatMap_pure_eq_map (fun name ↦ ((⟨none, 0⟩ : Site), name)) graph.inputs

/-- Every output is registered, constants included. -/
theorem registered_eq :
    graph.registered = graph.callerUses ++ graph.nodeUses ++ graph.returnUses graph.outputs := by
  have hbuilt : (graph.buildCalls.map BuildCall.call).filterMap Ledger.Call.registers? =
      graph.registeredUses.map fun entry ↦ (entry.2, entry.1.position) := by
    rw [registeredUses, List.filterMap_map, List.map_filterMap]
    congr 1
    funext call
    cases call <;> rfl
  have hresolved : (graph.resolvedUses.map resolveCall).filterMap Ledger.Call.registers? = [] := by
    rw [List.filterMap_map, List.filterMap_eq_nil_iff]
    exact fun _ _ ↦ rfl
  rw [registered, ledgerCalls, List.filterMap_append, hbuilt, List.filterMap_cons_none rfl,
    hresolved, List.append_nil, registeredUses_eq, nodeReads, List.map_append, List.map_append,
    List.map_flatMap]
  simp only [variablesAt, List.map_map]
  rfl

/-- A constant is never resolved. -/
theorem resolved_eq :
    graph.resolved = graph.nodeUses ++ graph.returnUses (graph.variableNames graph.outputs) ++
      graph.callerUses := by
  have hbuilt : (graph.buildCalls.map BuildCall.call).filterMap Ledger.Call.resolves? = [] := by
    rw [List.filterMap_map, List.filterMap_eq_nil_iff]
    rintro (_ | _) _ <;> rfl
  have hresolved : (graph.resolvedUses.map resolveCall).filterMap Ledger.Call.resolves? =
      graph.resolvedUses.map fun entry ↦ (entry.2, entry.1.position) := by
    rw [List.filterMap_map]
    exact List.filterMap_eq_map_iff_forall_eq_some.mpr fun _ _ ↦ rfl
  rw [resolved, ledgerCalls, List.filterMap_append, hbuilt, List.nil_append,
    List.filterMap_cons_none rfl, hresolved, resolvedUses, nodeReads, List.map_append,
    List.map_append, List.map_flatMap]
  simp only [variablesAt, List.map_map]
  rfl

/-- The uses that are registered are the ones that are resolved and those of returned constants. -/
theorem registered_perm :
    graph.registered.Perm
      (graph.resolved ++ graph.returnUses (graph.outputs.filter graph.isConstant)) := by
  have hreturned : (graph.returnUses graph.outputs).Perm
      (graph.returnUses (graph.variableNames graph.outputs) ++
        graph.returnUses (graph.outputs.filter graph.isConstant)) := by
    rw [returnUses, returnUses, returnUses, ← List.map_append]
    exact ((List.filter_append_perm graph.isConstant graph.outputs).symm.trans
      List.perm_append_comm).map _
  rw [registered_eq, resolved_eq]
  refine (hreturned.append_left _).trans ?_
  rw [← List.append_assoc, List.append_assoc graph.callerUses]
  exact List.perm_append_comm.append_right _

/-- As many uses are registered as are resolved, for every name and position, exactly when no
constant is returned. -/
theorem registered_perm_resolved_iff :
    graph.registered.Perm graph.resolved ↔
      ∀ name ∈ graph.outputs, graph.isConstant name = false := by
  have hnone : (∀ name ∈ graph.outputs, graph.isConstant name = false) ↔
      graph.outputs.filter graph.isConstant = [] := by
    simp [List.filter_eq_nil_iff]
  rw [hnone]
  constructor
  · intro hperm
    have hlength := (graph.registered_perm.symm.trans hperm).length_eq
    rw [List.length_append, Nat.add_eq_left, returnUses, List.length_map] at hlength
    exact List.eq_nil_of_length_eq_zero hlength
  · intro hreturned
    have hperm := graph.registered_perm
    rwa [hreturned, returnUses, List.map_nil, List.append_nil] at hperm

end Graph

/-! ### Generations -/

namespace Generating

variable {α β : Type}

/-- Whether a step of generation makes no call on a ledger. -/
def KeepsEvents (step : Generating α) : Prop := ∀ trace, (step trace).2.events = trace.events

theorem keepsEvents_lift (result : Result α) : KeepsEvents (lift result) := fun _ ↦ rfl

theorem keepsEvents_pure (value : α) : KeepsEvents (pure value : Generating α) := fun _ ↦ rfl

theorem keepsEvents_say (options : Options) (lines : List String) :
    KeepsEvents (say options lines) := fun _ ↦ events_say lines

theorem KeepsEvents.bind {first : Generating α} {next : α → Generating β}
    (hfirst : KeepsEvents first) (hnext : ∀ value, KeepsEvents (next value)) :
    KeepsEvents (first >>= next) := by
  intro trace
  have hkept := hfirst trace
  rw [Stateful.run_bind]
  rcases hrun : first trace with ⟨err | value, reached⟩
  · rwa [hrun] at hkept
  · rw [hrun] at hkept
    exact (hnext value reached).trans hkept

theorem keepsEvents_checkpointFindings (options : Options) (failOn : Option Severity)
    (run : Option Severity → Result (List Finding)) :
    KeepsEvents (checkpointFindings options failOn run) := by
  intro trace
  rw [checkpointFindings_run]
  cases failOn with
  | none => rfl
  | some severity =>
    dsimp only
    cases run (some severity) with
    | error err => rfl
    | ok findings => exact events_say _

/-- A step of generation makes the calls of a list on a fresh ledger, in order, and has made all of
them when it succeeds. -/
def MakesFresh (step : Generating α) (calls : List Ledger.Call) : Prop :=
  ∀ trace : Trace, ∃ made, made <+: calls ∧
    (step trace).2.events = ((Ledger.fresh trace.events).after made).log ∧
    (Result.Returns (step trace).1 → made = calls)

theorem makesFresh_of_error {step : Generating α} {trace reached : Trace} {err : Error}
    (hrun : step trace = (.error err, reached)) (hkept : reached.events = trace.events)
    (calls : List Ledger.Call) :
    ∃ made, made <+: calls ∧
      (step trace).2.events = ((Ledger.fresh trace.events).after made).log ∧
      (Result.Returns (step trace).1 → made = calls) := by
  rw [hrun]
  refine ⟨[], List.nil_prefix, hkept, ?_⟩
  rintro ⟨_, hvalue⟩
  cases hvalue

/-- A step that makes no call may come first. -/
theorem KeepsEvents.bind_makesFresh {first : Generating α} {next : α → Generating β}
    {calls : List Ledger.Call} (hfirst : KeepsEvents first)
    (hnext : ∀ value, MakesFresh (next value) calls) : MakesFresh (first >>= next) calls := by
  intro trace
  have hkept := hfirst trace
  have hbind := Stateful.run_bind first next trace
  rcases hrun : first trace with ⟨err | value, reached⟩
  · rw [hrun] at hkept hbind
    exact makesFresh_of_error hbind hkept calls
  · rw [hrun] at hkept hbind
    rw [hbind, ← hkept]
    exact hnext value reached

/-- Steps that make no call may follow a computation on a ledger. -/
theorem makesFresh_withLedger_bind {computation : Bookkeeping α} {next : α × Ledger → Generating β}
    {calls : List Ledger.Call} (hcomputation : computation.Makes calls)
    (hnext : ∀ reached, KeepsEvents (next reached)) :
    MakesFresh (withLedger computation >>= next) calls := by
  intro trace
  obtain ⟨made, hmade, hreached, hall⟩ := hcomputation (.fresh trace.events)
  refine ⟨made, hmade, ?_⟩
  rw [Stateful.run_bind, withLedger]
  rcases hrun : computation (.fresh trace.events) with ⟨err | value, ledger⟩
  · rw [hrun] at hreached
    refine ⟨congrArg Ledger.log hreached, ?_⟩
    rintro ⟨_, hvalue⟩
    cases hvalue
  · rw [hrun] at hreached hall
    have hkept := hnext (value, ledger) { trace with events := ledger.log }
    exact ⟨hkept.trans (congrArg Ledger.log hreached), fun _ ↦ hall ⟨value, rfl⟩⟩

end Generating

open Generating

section Generate

variable (setup : Setup) (options : Options) (graph : Graph)

theorem makesFresh_generateChecked (failOn : Option Severity) :
    MakesFresh (generateChecked setup options graph failOn) graph.ledgerCalls :=
  (keepsEvents_checkpointFindings options failOn _).bind_makesFresh fun _ ↦
    makesFresh_withLedger_bind (makes_writeBody setup.ops graph options.style) fun _ ↦
      (keepsEvents_checkpointFindings options failOn _).bind fun _ ↦
        (keepsEvents_lift _).bind fun _ ↦ (keepsEvents_say options _).bind fun _ ↦
          keepsEvents_pure _

/-- In every mode a generation makes the calls of its graph on a fresh ledger, as far as it gets. -/
theorem makesFresh_generate : MakesFresh (generate setup options graph) graph.ledgerCalls := by
  refine (keepsEvents_lift options.validate).bind_makesFresh fun failOn ↦ ?_
  have hchecked := makesFresh_generateChecked setup options graph failOn
  cases hverbose : options.verbose with
  | false => exact hchecked
  | true =>
    exact (keepsEvents_lift graph.summary).bind_makesFresh fun _ ↦
      (keepsEvents_say options _).bind_makesFresh fun _ ↦ hchecked

end Generate

end Handover
