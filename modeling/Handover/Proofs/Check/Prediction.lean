import Handover.Proofs.Check.Returning
import Handover.Proofs.Generation.Faultless
import Handover.Proofs.Graph.Calls
import Handover.Proofs.Program.Unresolved

/-!
# The structure check predicts ledger faults

On a graph that is built, whose names have distinct forms and which returns no constant, the
structure check finds what the ledger will refuse: its findings are those of the early reads, in
order, and of the unprovided outputs, among others that have other messages (`findings_split`). It
returns exactly when the attribute `sizes` of every node can be measured. So, unless it fails there,
generation without checks is stopped by a ledger fault exactly when the check reports an early read
or an output without a producer, and at the first of them (`structure_predicts_faults`).
-/

set_option autoImplicit false
set_option relaxedAutoImplicit false

namespace Handover

/-! ### Kinds of findings -/

namespace Finding

/-- Whether a finding says that a node reads a name before any node produces it. -/
def IsEarlyReadOf (finding : Finding) (name : String) : Prop :=
  ∃ op : Op, finding.message = op.name ++ " reads '" ++ name ++ "' before any node produces it"

/-- Whether a finding says that some name is read too early. -/
def IsEarlyRead (finding : Finding) : Prop := ∃ name, finding.IsEarlyReadOf name

/-- Whether a finding says that some output has no producer. -/
def IsUnproduced (finding : Finding) : Prop :=
  ∃ name, finding.message = "Graph output '" ++ name ++ "' has no producer node"

end Finding

namespace Structure

variable {ops : List Op} {graph : Graph}

/-- The endings of messages about anything else. -/
def otherEndings : List String :=
  registrationEndings ++ ["' not in tensor registry", " (should be external)", " sizes"]

theorem not_isEarlyRead_of_ends {finding : Finding} (hends : Ends otherEndings finding) :
    ¬ finding.IsEarlyRead := by
  rintro ⟨name, op, hmessage⟩
  refine hends.not_ends "' before any node produces it" (by decide) ?_
  rw [hmessage]
  exact suffix_append _ _

theorem not_isUnproduced_of_ends {finding : Finding} (hends : Ends otherEndings finding) :
    ¬ finding.IsUnproduced := by
  rintro ⟨name, hmessage⟩
  refine hends.not_ends "' has no producer node" (by decide) ?_
  rw [hmessage]
  exact suffix_append _ _

/-! ### The findings of a built graph -/

/-- Whether a finding is that of a read at a site. -/
structure ReadsAt (entry : Site × String) (finding : Finding) : Prop where
  message : finding.IsEarlyReadOf entry.2
  node : finding.node = entry.1.node.map Int.ofNat
  position : finding.position = some entry.1.position

/-- The finding that nothing provides an output. -/
def unproducedFinding (name : String) : Finding :=
  plainFinding ("Graph output '" ++ name ++ "' has no producer node")

section Consistent

variable (hconsistent : graph.Consistent)

include hconsistent

theorem nodeFinding_eq_ok {index : Nat} {node : Node} (hnode : graph.nodes[index]? = some node)
    (message : String) :
    nodeFinding graph node message =
      .ok ⟨"structure", .error, message, some node.id, some index⟩ := by
  unfold nodeFinding
  rw [hconsistent.indexOf hnode]
  rfl

/-- The findings of early reads are those of the reads, in order. -/
theorem earlyReads_eq_ok (rest : List Node) {before : List Node}
    (hsplit : graph.nodes = before ++ rest) (defined : List String) :
    ∃ reads, earlyReads graph defined rest = .ok reads ∧
      List.Forall₂ ReadsAt (earlyReadsAfter defined (rest.zipIdx before.length)) reads := by
  induction rest generalizing before defined with
  | nil => exact ⟨[], rfl, .nil⟩
  | cons node rest ih =>
    have hplace : graph.nodes[before.length]? = some node := by simp [hsplit]
    have hearly : node.inputs.filter
        (fun name ↦ graph.tensors.contains name && !defined.contains name) =
        node.inputs.filter fun name ↦ !defined.contains name := by
      refine List.filter_congr fun name hname ↦ ?_
      rw [hconsistent.registered node (List.mem_of_getElem? hplace) name (.inl hname),
        Bool.true_and]
    have hsnoc : graph.nodes = before ++ [node] ++ rest :=
      hsplit.trans (List.append_cons before node rest)
    obtain ⟨later, hlater, hrelated⟩ := ih hsnoc (defined ++ node.outputs)
    rw [List.length_append, List.length_singleton] at hrelated
    refine ⟨_, Result.bind_eq_ok_iff.mpr ⟨(node.inputs.filter fun name ↦ !defined.contains name).map
      fun name ↦ ⟨"structure", .error, node.op.name ++ " reads '" ++ name ++
        "' before any node produces it", some node.id, some before.length⟩, ?_,
      Result.bind_eq_ok_iff.mpr ⟨later, hlater, rfl⟩⟩, ?_⟩
    · rw [findingsFor, hearly, Result.mapM_eq_ok_iff, List.forall₂_map_right_iff, List.forall₂_same]
      exact fun name _ ↦ nodeFinding_eq_ok hconsistent hplace _
    · rw [List.zipIdx_cons, earlyReadsAfter]
      refine List.rel_append ?_ hrelated
      rw [List.forall₂_map_left_iff, List.forall₂_map_right_iff, List.forall₂_same]
      exact fun name _ ↦ ⟨⟨node.op, rfl⟩, rfl, rfl⟩

/-- The findings of outputs are those of the unprovided ones, in order. Assumes: no constant is
returned. -/
theorem outputRoles_eq_ok (hreturned : ∀ name ∈ graph.outputs, graph.isConstant name = false) :
    outputRoles graph = .ok (graph.unprovidedOutputs.map unproducedFinding) := by
  have hprovided : ∀ name, (graph.nodes.filter fun node ↦ node.outputs.contains name).isEmpty =
      graph.nodes.all fun node ↦ !node.outputs.contains name := by
    intro name
    rw [Bool.eq_iff_iff, List.isEmpty_iff, List.filter_eq_nil_iff, List.all_eq_true]
    simp
  refine Result.bind_eq_ok_iff.mpr ⟨graph.outputs.map fun name ↦
    if !graph.inputs.contains name && graph.nodes.all fun node ↦ !node.outputs.contains name
    then [unproducedFinding name] else [], ?_, ?_⟩
  · rw [Result.mapM_eq_ok_iff, List.forall₂_map_right_iff, List.forall₂_same]
    intro name hname
    rw [if_neg (by rw [← Graph.isConstant, hreturned name hname]; exact Bool.false_ne_true),
      hconsistent.producers]
    show (if _ then _ else _ : Result (List Finding)) = _
    rw [hprovided, Bool.and_comm]
    split_ifs <;> rfl
  · refine congrArg Except.ok ?_
    rw [Graph.unprovidedOutputs]
    generalize graph.outputs = names
    induction names with
    | nil => rfl
    | cons name rest ih =>
      rw [List.map_cons, List.flatten_cons, ih, List.filter_cons]
      split_ifs <;> rfl

end Consistent

/-- The findings of a built graph: those of the unprovided outputs and of the early reads stand
among others that have other messages. -/
theorem findings_split (hconsistent : graph.Consistent)
    (hreturned : ∀ name ∈ graph.outputs, graph.isConstant name = false) {found : List Finding}
    (hfound : findings ops graph = .ok found) :
    ∃ before reads after,
      found = before ++ graph.unprovidedOutputs.map unproducedFinding ++ reads ++ after ∧
      (∀ finding ∈ before, Ends otherEndings finding) ∧
      (∀ finding ∈ after, Ends otherEndings finding) ∧
      List.Forall₂ ReadsAt
        (earlyReadsAfter (graph.inputs ++ graph.constants) graph.nodes.zipIdx) reads := by
  obtain ⟨registered, boundInputs, boundConstants, outputs, reads, arities, hregistered, hinputs,
    hconstants, houtputs, hreads, harities, rfl⟩ := findings_eq_ok_iff.mp hfound
  obtain ⟨others, hothers, hrelated⟩ := earlyReads_eq_ok hconsistent graph.nodes
    (List.nil_append _).symm (graph.inputs ++ graph.constants)
  obtain rfl := Except.ok.inj (hothers.symm.trans hreads)
  obtain rfl := Except.ok.inj (houtputs.symm.trans (outputRoles_eq_ok hconsistent hreturned))
  refine ⟨_, others, arities.flatten, rfl, ?_, ?_, hrelated⟩
  · intro finding hfinding
    simp only [List.mem_append] at hfinding
    rcases hfinding with ((hfinding | (hfinding | hfinding) | hfinding) | hfinding) | hfinding
    · exact (Result.flatten_of_mapM (fun node _ ↦ registrations_yields ops graph node) hregistered
        finding hfinding).mono (List.subset_append_left _ _)
    · exact (unregisteredRoles_ends graph _ _ finding hfinding).mono (by decide)
    · exact (unregisteredRoles_ends graph _ _ finding hfinding).mono (by decide)
    · exact (unregisteredRoles_ends graph _ _ finding hfinding).mono (by decide)
    · exact (boundRoles_yields graph _ _ boundInputs hinputs finding hfinding).mono (by decide)
    · exact (boundRoles_yields graph _ _ boundConstants hconstants finding hfinding).mono
        (by decide)
  · intro finding hfinding
    exact (Result.flatten_of_mapM (fun node _ ↦ splitArity_yields graph node) harities
      finding hfinding).mono (by decide)

theorem not_isEarlyRead_unproducedFinding (name : String) :
    ¬ (unproducedFinding name).IsEarlyRead := by
  rintro ⟨other, op, hmessage⟩
  have hends : Ends ["' has no producer node"] (unproducedFinding name) :=
    ends_plainFinding _ (List.mem_singleton_self _)
  refine hends.not_ends "' before any node produces it" (by decide) ?_
  rw [hmessage]
  exact suffix_append _ _

section Reported

variable (hconsistent : graph.Consistent)
  (hreturned : ∀ name ∈ graph.outputs, graph.isConstant name = false) {found : List Finding}
  (hfound : findings ops graph = .ok found)

include hconsistent hreturned hfound

/-- The first early read is the first that is reported as one. -/
theorem exists_first_earlyRead {entry : Site × String} {others : List (Site × String)}
    (hearly : earlyReadsAfter (graph.inputs ++ graph.constants) graph.nodes.zipIdx =
      entry :: others) :
    ∃ before first after, found = before ++ first :: after ∧
      (∀ finding ∈ before, ¬ finding.IsEarlyRead) ∧ ReadsAt entry first := by
  obtain ⟨before, reads, after, rfl, hbefore, -, hreads⟩ :=
    findings_split hconsistent hreturned hfound
  rw [hearly] at hreads
  obtain ⟨first, later, hentry, -, rfl⟩ := List.forall₂_cons_left_iff.mp hreads
  refine ⟨before ++ graph.unprovidedOutputs.map unproducedFinding, first, later ++ after,
    List.append_assoc .., fun finding hfinding ↦ ?_, hentry⟩
  rcases List.mem_append.mp hfinding with hfinding | hfinding
  · exact not_isEarlyRead_of_ends (hbefore finding hfinding)
  · obtain ⟨name, -, rfl⟩ := List.mem_map.mp hfinding
    exact not_isEarlyRead_unproducedFinding name

/-- Where no read is early none is reported, and some output is reported to have no producer exactly
if nothing provides some output. -/
theorem unproduced_of_no_earlyRead
    (hearly : earlyReadsAfter (graph.inputs ++ graph.constants) graph.nodes.zipIdx = []) :
    (∀ finding ∈ found, ¬ finding.IsEarlyRead) ∧
      ((∃ finding ∈ found, finding.IsUnproduced) ↔ graph.unprovidedOutputs ≠ []) := by
  obtain ⟨before, reads, after, rfl, hbefore, hafter, hreads⟩ :=
    findings_split hconsistent hreturned hfound
  rw [hearly] at hreads
  obtain rfl := List.forall₂_nil_left_iff.mp hreads
  rw [List.append_nil]
  have hkind (finding : Finding)
      (hfinding : finding ∈ before ++ graph.unprovidedOutputs.map unproducedFinding ++ after) :
      Ends otherEndings finding ∨ ∃ name ∈ graph.unprovidedOutputs,
        unproducedFinding name = finding := by
    rcases List.mem_append.mp hfinding with hfinding | hfinding
    · rcases List.mem_append.mp hfinding with hfinding | hfinding
      · exact .inl (hbefore finding hfinding)
      · exact .inr (List.mem_map.mp hfinding)
    · exact .inl (hafter finding hfinding)
  constructor
  · intro finding hfinding
    rcases hkind finding hfinding with hends | ⟨name, -, rfl⟩
    · exact not_isEarlyRead_of_ends hends
    · exact not_isEarlyRead_unproducedFinding name
  · constructor
    · rintro ⟨finding, hfinding, hunproduced⟩
      rcases hkind finding hfinding with hends | ⟨name, hname, -⟩
      · exact absurd hunproduced (not_isUnproduced_of_ends hends)
      · exact List.ne_nil_of_mem hname
    · intro hunprovided
      obtain ⟨name, hname⟩ := List.exists_mem_of_ne_nil _ hunprovided
      have hreported : unproducedFinding name ∈ graph.unprovidedOutputs.map unproducedFinding :=
        List.mem_map_of_mem hname
      exact ⟨_, List.mem_append_left _ (List.mem_append_right _ hreported), name, rfl⟩

end Reported

end Structure

/-! ### The prediction -/

section Prediction

variable {setup : Setup} {options : Options} {graph : Graph} {trace : Trace}

/-- Generation without checks is stopped by a ledger fault exactly at the first unresolved use. -/
theorem generate_unchecked_iff (hvalidate : options.validate = .ok none)
    (hquiet : options.verbose = false) {failure : GenerationFailure} :
    (generate setup options graph trace).1 = .error (.generation failure) ↔
      ∃ entry, graph.firstUnresolved? = some entry ∧
        Error.generation failure = graph.unresolvedError entry := by
  constructor
  · intro herror
    cases generate_eq_error (Prod.ext herror rfl) with
    | options hfailed => exact absurd (plain_validate options _ hfailed) id
    | summary hsummary => exact absurd (plain_summary graph _ hsummary) id
    | checks hchecked => cases hvalidate.symm.trans hchecked
    | body hbody => exact (writeBody_eq_error hbody).resolve_left id
    | drained hchecked => cases hvalidate.symm.trans hchecked
    | text htext => exact absurd (plain_moduleText graph _ _ _ htext) id
  · rintro ⟨entry, hfirst, hfailure⟩
    obtain ⟨ledger, hbody⟩ := writeBody_of_unresolved setup.ops options.style trace.events hfirst
    obtain ⟨final, hfinal⟩ := generate_eq_error_of_writeBody hvalidate hquiet hbody
    rw [hfinal, hfailure]

section Places

variable (hforms : graph.DistinctForms) (hvalidate : options.validate = .ok none)
  (hquiet : options.verbose = false)

include hforms hvalidate hquiet

/-- Generation without checks is stopped at the first early read. -/
theorem generate_unchecked_of_earlyRead {entry : Site × String} {others : List (Site × String)}
    (hearly : earlyReadsAfter (graph.inputs ++ graph.constants) graph.nodes.zipIdx =
      entry :: others) {failure : GenerationFailure} :
    (generate setup options graph trace).1 = .error (.generation failure) ↔
      Error.generation failure = graph.unresolvedError entry := by
  have hfirst : graph.firstUnresolved? = some entry := by
    rw [firstUnresolved?_eq hforms, hearly]
    rfl
  rw [generate_unchecked_iff hvalidate hquiet, hfirst]
  simp

/-- Generation without checks is stopped at the first output that nothing provides, where no read is
early. -/
theorem generate_unchecked_of_no_earlyRead
    (hearly : earlyReadsAfter (graph.inputs ++ graph.constants) graph.nodes.zipIdx = [])
    {failure : GenerationFailure} :
    (generate setup options graph trace).1 = .error (.generation failure) ↔
      ∃ name, graph.unprovidedOutputs.head? = some name ∧
        Error.generation failure = graph.unresolvedError (graph.returnSite, name) := by
  rw [generate_unchecked_iff hvalidate hquiet, firstUnresolved?_eq hforms, hearly, List.nil_append,
    List.head?_map]
  simp only [Option.map_eq_some_iff]
  constructor
  · rintro ⟨_, ⟨name, hname, rfl⟩, hfailure⟩
    exact ⟨name, hname, hfailure⟩
  · rintro ⟨name, hname, hfailure⟩
    exact ⟨_, ⟨name, hname, rfl⟩, hfailure⟩

end Places

/-- The structure check of a built graph fails as measuring the attribute `sizes` of a node fails,
where that cannot be measured, and otherwise it returns. Then it predicts the ledger fault of a
generation without checks: there is one exactly when the check reports an early read or an output
without a producer, and it is the first early read that is reported, or else the first output that
nothing provides. Assumes: distinct identifier forms, and no constant is returned. -/
theorem structure_predicts_faults (setup : Setup) (options : Options) (trace : Trace)
    {graph : Graph} (hbuilt : graph.Built) (hforms : graph.DistinctForms)
    (hreturned : ∀ name ∈ graph.outputs, graph.isConstant name = false)
    (hvalidate : options.validate = .ok none) (hquiet : options.verbose = false) :
    ((∃ found, Structure.findings setup.ops graph = .ok found) ↔
      ∀ node ∈ graph.nodes, Structure.hasMeasurableSizes node = true) ∧
    ((∃ node ∈ graph.nodes, Structure.hasMeasurableSizes node = false) →
      Structure.findings setup.ops graph = fails .wrongKind) ∧
    ∀ found, Structure.findings setup.ops graph = .ok found →
      ((∃ failure, (generate setup options graph trace).1 = .error (.generation failure)) ↔
        ∃ finding ∈ found, finding.IsEarlyRead ∨ finding.IsUnproduced) ∧
      ∀ failure, (generate setup options graph trace).1 = .error (.generation failure) →
        (∃ before first after name, found = before ++ first :: after ∧
          (∀ finding ∈ before, ¬ finding.IsEarlyRead) ∧ first.IsEarlyReadOf name ∧
          failure.node = first.node ∧ first.position = some failure.position ∧
          failure.cause = .unknown (sanitize name) (some failure.position)) ∨
        ((∀ finding ∈ found, ¬ finding.IsEarlyRead) ∧ failure.node = none ∧
          failure.position = graph.nodes.length ∧ ∃ name,
            graph.outputs.find? (fun name ↦ !graph.inputs.contains name &&
              graph.nodes.all fun node ↦ !node.outputs.contains name) = some name ∧
            failure.cause = .unknown (sanitize name) (some failure.position)) := by
  have hconsistent := hbuilt.consistent
  refine ⟨Structure.findings_returns_iff_of_looksUp hconsistent.looksUp,
    fun ⟨node, hnode, hsizes⟩ ↦ Structure.findings_eq_error_of_looksUp hconsistent.looksUp hnode
      hsizes, ?_⟩
  intro found hfound
  cases hearly : earlyReadsAfter (graph.inputs ++ graph.constants) graph.nodes.zipIdx with
  | cons entry others =>
    obtain ⟨before, first, after, hsplit, hbefore, hentry⟩ :=
      Structure.exists_first_earlyRead hconsistent hreturned hfound hearly
    refine ⟨iff_of_true
      ⟨_, (generate_unchecked_of_earlyRead hforms hvalidate hquiet hearly).mpr rfl⟩
      ⟨first, by simp [hsplit], .inl ⟨entry.2, hentry.message⟩⟩, fun failure herror ↦ ?_⟩
    cases (generate_unchecked_of_earlyRead hforms hvalidate hquiet hearly).mp herror
    exact .inl ⟨before, first, after, entry.2, hsplit, hbefore, hentry.message, hentry.node.symm,
      hentry.position, rfl⟩
  | nil =>
    obtain ⟨hnone, hunproduced⟩ :=
      Structure.unproduced_of_no_earlyRead hconsistent hreturned hfound hearly
    constructor
    · constructor
      · rintro ⟨failure, herror⟩
        obtain ⟨name, hname, -⟩ :=
          (generate_unchecked_of_no_earlyRead hforms hvalidate hquiet hearly).mp herror
        obtain ⟨finding, hfinding, hkind⟩ :=
          hunproduced.mpr (List.ne_nil_of_mem (List.mem_of_head? hname))
        exact ⟨finding, hfinding, .inr hkind⟩
      · rintro ⟨finding, hfinding, hread | hkind⟩
        · exact absurd hread (hnone finding hfinding)
        · obtain ⟨name, rest, hunprovided⟩ :=
            List.exists_cons_of_ne_nil (hunproduced.mp ⟨finding, hfinding, hkind⟩)
          exact ⟨_, (generate_unchecked_of_no_earlyRead hforms hvalidate hquiet hearly).mpr
            ⟨name, by rw [hunprovided]; rfl, rfl⟩⟩
    · intro failure herror
      obtain ⟨name, hname, hfailure⟩ :=
        (generate_unchecked_of_no_earlyRead hforms hvalidate hquiet hearly).mp herror
      cases hfailure
      exact .inr ⟨hnone, rfl, rfl, name, List.head?_filter.symm.trans hname, rfl⟩

end Prediction

/-- A graph that reads a name before a later node binds it, and returns a name that nothing
provides. -/
def lateBinding : Graph :=
  (Graph.make "late"
    [.input "x/0" [.int 2] "float32", .tensor "y" [.int 2] "float32",
      .tensor "z" [.int 2] "float32", .node .relu ["x/0"] ["z"] {},
      .node .add ["z", "y"] ["z"] {}, .node .neg ["z"] ["y"] {}] ["y", "w"]).toOption.get rfl

theorem built_lateBinding : lateBinding.Built := (Graph.built_make _ _ _).get rfl

theorem distinctForms_lateBinding : lateBinding.DistinctForms := by
  have hforms : ∀ first ∈ lateBinding.allNames, ∀ second ∈ lateBinding.allNames,
      sanitize first = sanitize second → first = second := by decide +kernel
  exact fun first hfirst second hsecond ↦ hforms first hfirst second hsecond

/-- The check reports the read before the binding, and generation without checks stops there. -/
theorem structure_predicts_faults_lateBinding :
    ∃ found, Structure.findings standardSetup.ops lateBinding = .ok found ∧
      (∃ finding ∈ found, finding.IsEarlyRead ∨ finding.IsUnproduced) ∧
      (generate standardSetup { strictness := "none" } lateBinding {}).1 =
        .error (.generation ⟨"late", some 1, 1, .unknown "y" (some 1)⟩) := by
  have hsizes : ∀ node ∈ lateBinding.nodes, Structure.hasMeasurableSizes node = true := by
    decide +kernel
  have hreturned : ∀ name ∈ lateBinding.outputs, lateBinding.isConstant name = false := by
    decide +kernel
  have hfirst : lateBinding.firstUnresolved? = some (⟨some 1, 1⟩, "y") := by decide +kernel
  have hpredicts := structure_predicts_faults standardSetup { strictness := "none" } {}
    built_lateBinding distinctForms_lateBinding hreturned rfl rfl
  have herror : (generate standardSetup { strictness := "none" } lateBinding {}).1 =
      .error (.generation ⟨"late", some 1, 1, .unknown "y" (some 1)⟩) :=
    (generate_unchecked_iff rfl rfl).mpr ⟨_, hfirst, rfl⟩
  obtain ⟨found, hfound⟩ := hpredicts.1.mpr hsizes
  exact ⟨found, hfound, (hpredicts.2.2 found hfound).1.mp ⟨_, herror⟩, herror⟩

/-- A graph with an attribute `sizes` that cannot be measured, which reads a name that nothing
provides. -/
def unmeasured : Graph :=
  (Graph.make "unmeasured"
    [.tensor "x" [.int 2] "float32", .tensor "y" [.int 2] "float32",
      .node .relu ["x"] ["y"] ⟨[("sizes", .int 5)]⟩] ["y"]).toOption.get rfl

/-- Where the attribute `sizes` cannot be measured, generation is stopped by a ledger fault although
the structure check reports nothing, since it does not return. -/
theorem structure_silent_unmeasured :
    unmeasured.Built ∧ unmeasured.DistinctForms ∧
      (∀ name ∈ unmeasured.outputs, unmeasured.isConstant name = false) ∧
      ¬ ((∃ failure, (generate standardSetup { strictness := "none" } unmeasured {}).1 =
          .error (.generation failure)) ↔
        ∃ found, Structure.findings standardSetup.ops unmeasured = .ok found ∧
          ∃ finding ∈ found, finding.IsEarlyRead ∨ finding.IsUnproduced) := by
  have hbuilt : unmeasured.Built := (Graph.built_make _ _ _).get rfl
  have hforms : ∀ first ∈ unmeasured.allNames, ∀ second ∈ unmeasured.allNames,
      sanitize first = sanitize second → first = second := by decide +kernel
  have hreturned : ∀ name ∈ unmeasured.outputs, unmeasured.isConstant name = false := by
    decide +kernel
  have hfirst : unmeasured.firstUnresolved? = some (⟨some 0, 0⟩, "x") := by decide +kernel
  have hsizes : ¬ ∀ node ∈ unmeasured.nodes, Structure.hasMeasurableSizes node = true := by
    decide +kernel
  refine ⟨hbuilt, fun first hmem second hother ↦ hforms first hmem second hother, hreturned, ?_⟩
  intro hiff
  obtain ⟨found, hfound, _⟩ := hiff.mp
    ⟨_, (generate_unchecked_iff rfl rfl).mpr ⟨_, hfirst, rfl⟩⟩
  exact hsizes ((Structure.findings_returns_iff_of_looksUp hbuilt.consistent.looksUp).mp
    ⟨found, hfound⟩)

end Handover
