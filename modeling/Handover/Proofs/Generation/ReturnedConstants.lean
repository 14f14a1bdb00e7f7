import Handover.Proofs.Generation.Layout
import Handover.Proofs.Generation.ReachingDefinitions
import Handover.Proofs.Program.LedgerCalls

/-!
# Returned constants

Constants are buffers of the module and are read without the ledger: no use of a node is one of a
constant, and neither the first walk nor the second meets a constant there (`Graph.UsesAccounted`).
The two walks part at the return. The second one reads a returned constant as a buffer, but the
first one registers a use of its name, as for any output. The uses that are registered are therefore
those that are resolved exactly when no constant is returned, as in every graph that passes the
structure check. The use of a returned constant is charged to a value that shares its identifier and
is left pending (`Generated.ReturnsConstants`), and when there is no such value generation stops at
the return (`uses_of_constants`, `returned_constant_refused`).
-/

set_option autoImplicit false
set_option relaxedAutoImplicit false

namespace Handover

/-! ### The account of a graph -/

/-- What the walks of a graph register and resolve, by name and position: the uses of the caller, of
the nodes and of the return statement. Those of the nodes and those that are resolved for the return
are no uses of constants, so the walks agree when no constant is returned. -/
structure Graph.UsesAccounted (graph : Graph) : Prop where
  registered : graph.registered =
    graph.callerUses ++ graph.nodeUses ++ graph.returnUses graph.outputs
  resolved : graph.resolved = graph.nodeUses ++
    graph.returnUses (graph.variableNames graph.outputs) ++ graph.callerUses
  noConstants : ∀ use ∈ graph.nodeUses ++ graph.returnUses (graph.variableNames graph.outputs),
    graph.isConstant use.1 = false
  unresolved : graph.registered.Perm
    (graph.resolved ++ graph.returnUses (graph.outputs.filter graph.isConstant))
  balanced : graph.registered.Perm graph.resolved ↔
    ∀ name ∈ graph.outputs, graph.isConstant name = false

theorem Graph.usesAccounted (graph : Graph) : graph.UsesAccounted where
  registered := graph.registered_eq
  resolved := graph.resolved_eq
  noConstants := by
    intro use huse
    rcases List.mem_append.mp huse with huse | huse
    · exact isConstant_of_mem_nodeUses huse
    · obtain ⟨name, hname, rfl⟩ := List.mem_map.mp huse
      simpa using (List.mem_filter.mp hname).2
  unresolved := graph.registered_perm
  balanced := graph.registered_perm_resolved_iff

/-! ### Modules that return constants -/

/-- How a generated module returns constants: a constant is written by the template for copies, like
any constant in an owned slot. The use that was registered for it is left pending on the ledger, on
a generation of its identifier that an input or a node produces. -/
def Generated.ReturnsConstants (generated : Generated) (setup : Setup) (options : Options)
    (graph : Graph) (trace : Trace) : Prop :=
  ∃ body ledger,
    writeBody setup.ops graph options.style (.fresh trace.events) = (.ok body, ledger) ∧
    moduleText graph options.className body = .ok generated.source ∧
    List.Forall₂ (fun name reference ↦ graph.isConstant name = true →
      reference.subject = "self." ++ sanitize name ∧
        Template.fill options.style.duplicate reference.subject = .ok reference.text)
      graph.outputs body.returned ∧
    ledger.Owes graph.returnedConstants ∧
    ∀ name ∈ graph.outputs, graph.isConstant name = true →
      ∃ place ∈ graph.producedAt (sanitize name), place ≤ graph.nodes.length

section Success

variable {setup : Setup} {options : Options} {graph : Graph} {trace : Trace}
  {generated : Generated}

theorem Sequenced.forall₂ {α β : Type} {usesOf : α → List Use} {related : α → List Use → β → Prop}
    {later : List Use} {items : List α} {values : List β} {weaker : α → β → Prop}
    (hweaker : ∀ item after value, related item after value → weaker item value)
    (hsequenced : Sequenced usesOf related later items values) :
    List.Forall₂ weaker items values := by
  induction hsequenced with
  | nil => exact .nil
  | cons hvalue _ ih => exact .cons (hweaker _ _ _ hvalue) ih

/-- The reference to an owned constant is the copy of its buffer. -/
theorem fill_of_constantReference {style : ReferenceStyle} {name : String} {reference : Reference}
    (hreference : constantReference style name true = .ok reference) :
    reference.subject = "self." ++ sanitize name ∧
      Template.fill style.duplicate reference.subject = .ok reference.text := by
  obtain ⟨text, htext, hmade⟩ := Result.bind_eq_ok_iff.mp hreference
  obtain rfl := Except.ok.inj hmade
  refine ⟨rfl, ?_⟩
  show Template.fill style.duplicate ("self." ++ sanitize name) = .ok text
  change templateText _ = _ at htext
  cases hfilled : Template.fill style.duplicate ("self." ++ sanitize name) with
  | ok filled =>
    rw [hfilled] at htext
    exact congrArg _ (Except.ok.inj htext)
  | error flaw =>
    rw [hfilled] at htext
    cases htext

theorem returnsConstants_of_generated
    (hgenerated : (generate setup options graph trace).1 = .ok generated) :
    generated.ReturnsConstants setup options graph trace := by
  obtain ⟨failOn, body, _, hmodule⟩ := generate_eq_ok (Prod.ext hgenerated rfl)
  obtain ⟨ledger, hwritten⟩ := hmodule.written
  obtain ⟨hresolved, howes, hbody⟩ := writeBody_eq_ok _ _ _ hwritten
  refine ⟨body, ledger, hwritten, hmodule.source, ?_, howes, ?_⟩
  · have hreturned : List.Forall₂ (fun slot reference ↦ slot.2 = true →
        graph.isConstant slot.1 = true → reference.subject = "self." ++ sanitize slot.1 ∧
          Template.fill options.style.duplicate reference.subject = .ok reference.text)
        (graph.outputs.map fun name ↦ (name, true)) body.returned := by
      refine Sequenced.forall₂ (fun slot after reference hmade howned hconstant ↦ ?_) hbody.returned
      rw [WrittenReference, hconstant, if_pos rfl, howned] at hmade
      exact fill_of_constantReference hmade
    exact (List.forall₂_map_left_iff.mp hreturned).imp fun name reference hcopied ↦ hcopied rfl
  · intro name hname hconstant
    have huse : (⟨sanitize name, graph.nodes.length⟩ : Use) ∈ usesOf graph.buildCalls := by
      refine (usesOf_buildCalls_perm graph).mem_iff.mpr (List.mem_append_right _
        (List.mem_append_right _ ?_))
      exact List.mem_map_of_mem (List.mem_filter.mpr ⟨hname, hconstant⟩)
    obtain ⟨place, hplace⟩ := exists_origin_of_resolved hresolved huse
    exact ⟨place, (Graph.origin_eq_some_iff.mp hplace).1⟩

/-- No constant is returned from a graph that passes the structure check. -/
theorem balanced_of_generated
    (hchecks : ⟨"structure", Structure.findings setup.ops⟩ ∈ setup.checks.onGraph)
    (hstrictness : options.strictness = "normal" ∨ options.strictness = "strict")
    (hgenerated : (generate setup options graph trace).1 = .ok generated) :
    graph.registered.Perm graph.resolved := by
  obtain ⟨failOn, body, hvalidate, hmodule⟩ := generate_eq_ok (Prod.ext hgenerated rfl)
  obtain ⟨severity, rfl⟩ := exists_severity_of_validate hvalidate hstrictness
  obtain ⟨findings, hpassed⟩ := hmodule.checked severity rfl
  exact graph.usesAccounted.balanced.mpr (clean_of_runOnGraph hchecks hpassed).not_constant

end Success

/-! ### Where generation stops -/

section Failure

variable {setup : Setup} {options : Options} {graph : Graph} {trace : Trace}

/-- The first walk stops at the first output that resolves to no generation. Assumes: every use that
the second walk resolves has a generation. -/
theorem firstUnresolved?_of_resolvedUses
    (hresolved : ∀ entry ∈ graph.resolvedUses, graph.origin (Site.use entry) ≠ none) :
    graph.firstUnresolved? = (graph.outputs.find? fun name ↦
      (graph.origin ⟨sanitize name, graph.nodes.length⟩).isNone).map
        fun name ↦ (graph.returnSite, name) := by
  have hearlier : (graph.inputs.map (fun name ↦ ((⟨none, 0⟩ : Site), name)) ++
      graph.nodeReads).find? (fun entry ↦ (graph.origin (Site.use entry)).isNone) = none := by
    rw [List.find?_eq_none]
    intro entry hentry
    have hmem : entry ∈ graph.resolvedUses := by
      simp only [Graph.resolvedUses, List.mem_append] at hentry ⊢
      tauto
    rw [Option.isNone_iff_eq_none]
    exact hresolved entry hmem
  rw [Graph.firstUnresolved?, Graph.registeredUses_eq, List.find?_append, hearlier, Option.none_or,
    List.find?_map]
  rfl

/-- Without checks, generation stops at the return with the first output that resolves to no
generation, which is a constant. Assumes: every use that is resolved has a generation, and there is
an output that has none. -/
theorem stopped_at_returned_constant (hvalidate : options.validate = .ok none)
    (hquiet : options.verbose = false)
    (hresolved : ∀ entry ∈ graph.resolvedUses, graph.origin (Site.use entry) ≠ none)
    {name : String} (hfirst : (graph.outputs.find? fun name ↦
      (graph.origin ⟨sanitize name, graph.nodes.length⟩).isNone) = some name) :
    graph.isConstant name = true ∧ (generate setup options graph trace).1 =
      .error (graph.unresolvedError (graph.returnSite, name)) := by
  have hunproduced : graph.origin ⟨sanitize name, graph.nodes.length⟩ = none := by
    have hnone := List.find?_some hfirst
    rwa [Option.isNone_iff_eq_none] at hnone
  refine ⟨?_, ?_⟩
  · rw [← Bool.not_eq_false]
    intro hvariable
    refine hresolved (graph.returnSite, name) ?_ hunproduced
    have hname : name ∈ graph.variableNames graph.outputs :=
      List.mem_filter.mpr ⟨List.mem_of_find?_eq_some hfirst, by rw [hvariable]; rfl⟩
    exact List.mem_append_left _ (List.mem_append_right _ (List.mem_map_of_mem hname))
  · have hstop := firstUnresolved?_of_resolvedUses hresolved
    rw [hfirst, Option.map_some] at hstop
    obtain ⟨_, hwritten⟩ := writeBody_of_unresolved setup.ops options.style trace.events hstop
    obtain ⟨final, hfailed⟩ := generate_eq_error_of_writeBody hvalidate hquiet hwritten
    exact congrArg Prod.fst hfailed

end Failure

/-! ### Constants and the ledger -/

/-- What the ledger of a graph sees of its constants, in every mode. A generation makes the calls of
its graph in order, as far as it gets, and these concern no constant but those that are returned.
Under the structure check none is, and all registered uses are resolved. A module that is generated
returns its constants as copies of buffers, with their uses pending. Without checks, a returned
constant whose identifier nothing produces stops the generation when nothing before it does. -/
theorem uses_of_constants (setup : Setup) (options : Options) (graph : Graph) (trace : Trace) :
    Bookkeeping.Makes (writeBody setup.ops graph options.style) graph.ledgerCalls ∧
    Generating.MakesFresh (generate setup options graph) graph.ledgerCalls ∧
    graph.UsesAccounted ∧
    (∀ generated, (generate setup options graph trace).1 = .ok generated →
      generated.ReturnsConstants setup options graph trace ∧
      (⟨"structure", Structure.findings setup.ops⟩ ∈ setup.checks.onGraph →
        options.strictness = "normal" ∨ options.strictness = "strict" →
        graph.registered.Perm graph.resolved)) ∧
    (options.validate = .ok none → options.verbose = false →
      (∀ entry ∈ graph.resolvedUses, graph.origin (Site.use entry) ≠ none) →
      ∀ name, (graph.outputs.find? fun name ↦
          (graph.origin ⟨sanitize name, graph.nodes.length⟩).isNone) = some name →
        graph.isConstant name = true ∧ (generate setup options graph trace).1 =
          .error (graph.unresolvedError (graph.returnSite, name))) := by
  refine ⟨makes_writeBody setup.ops graph options.style, makesFresh_generate setup options graph,
    graph.usesAccounted, ?_, ?_⟩
  · intro generated hgenerated
    exact ⟨returnsConstants_of_generated hgenerated, fun hchecks hstrictness ↦
      balanced_of_generated hchecks hstrictness hgenerated⟩
  · intro hvalidate hquiet hresolved name hfirst
    exact stopped_at_returned_constant hvalidate hquiet hresolved hfirst

/-- The steps that build a graph which returns a constant. -/
def returningSteps : Result Graph := do
  let graph ← Graph.addConstant { name := "returning" } "w" (Tensor.tabulate .float32 [2] fun _ ↦ 0)
  return { graph with outputs := ["w"] }

/-- A graph that returns a constant and nothing else. -/
def returning : Graph := returningSteps.toOption.get rfl

/-- The steps that build a graph whose input is a constant as well. -/
def sharedSteps : Result Graph := do
  let graph ← Graph.addConstant { name := "shared" } "x" (Tensor.tabulate .float32 [2] fun _ ↦ 0)
  return { graph with inputs := ["x"], outputs := ["x"] }

/-- A graph whose returned constant shares its identifier with an input. -/
def shared : Graph := sharedSteps.toOption.get rfl

/-- The module of a graph that passes its checks leaves nothing pending. The use of a constant that
is also an input is charged to the input and left pending, and that of a constant alone stops the
generation. -/
theorem uses_of_constants_returning :
    (∃ generated, (generate standardSetup {} quoted {}).1 = .ok generated ∧
      quoted.registered.Perm quoted.resolved) ∧
    (∃ generated, (generate standardSetup { strictness := "none" } shared {}).1 = .ok generated ∧
      generated.ReturnsConstants standardSetup { strictness := "none" } shared {} ∧
      shared.returnedConstants = [⟨"x", 0⟩]) ∧
    (generate standardSetup { strictness := "none" } returning {}).1 =
      .error (returning.unresolvedError (returning.returnSite, "w")) := by
  obtain ⟨checked, hchecked⟩ : Result.Returns (generate standardSetup {} quoted {}).1 :=
    returns_generate_of_lines (by decide +kernel) (by decide +kernel)
  obtain ⟨unchecked, hunchecked⟩ :
      Result.Returns (generate standardSetup { strictness := "none" } shared {}).1 :=
    Result.returns_of_isSome (by decide +kernel)
  obtain ⟨_, _, _, hquoted, _⟩ := uses_of_constants standardSetup {} quoted {}
  obtain ⟨_, _, _, hshared, _⟩ := uses_of_constants standardSetup { strictness := "none" } shared {}
  obtain ⟨_, _, _, _, hreturning⟩ :=
    uses_of_constants standardSetup { strictness := "none" } returning {}
  refine ⟨⟨checked, hchecked, (hquoted checked hchecked).2 (List.mem_cons_self ..) (.inl rfl)⟩,
    ⟨unchecked, hunchecked, (hshared unchecked hunchecked).1, by decide +kernel⟩,
    (hreturning rfl rfl ?_ "w" (by decide +kernel)).2⟩
  intro entry hentry
  cases hentry

/-- Nothing is resolved for a graph that returns a constant, but a use of the constant is
registered, and the generation of its module stops there. -/
theorem returned_constant_refused :
    returning.isConstant "w" = true ∧ returning.registered = [("w", 0)] ∧
      returning.resolved = [] ∧
      (generate standardSetup { strictness := "none" } returning {}).1 =
        .error (.generation ⟨"returning", none, 0, .unknown "w" (some 0)⟩) := by
  have hfirst : (returning.outputs.find? fun name ↦
      (returning.origin ⟨sanitize name, returning.nodes.length⟩).isNone) = some "w" := by
    decide +kernel
  refine ⟨by decide +kernel, by decide +kernel, by decide +kernel, ?_⟩
  refine (stopped_at_returned_constant rfl rfl (fun entry hentry ↦ ?_) hfirst).2
  cases hentry

end Handover
