import Handover.Proofs.Check.Passing
import Handover.Proofs.Graph.Building

/-!
# Accepted graphs

What the checks of a graph promise to the program that is written for it (`Graph.Accepted`): names
keep their identity in identifier form, every name that has a role or stands at a node is
registered, and no node binds an input or a constant. A graph that is built and passes the standard
checks is accepted (`accepted_of_runOnGraph`). However it came about, a graph that passes them has
names that the program can bind (`Graph.Bindable`).
-/

set_option autoImplicit false
set_option relaxedAutoImplicit false

namespace Handover

/-- What is known of the names of a graph that passes its checks. -/
structure Graph.Accepted (graph : Graph) : Prop where
  forms : ∀ name other, graph.tensors.contains name = true → graph.tensors.contains other = true →
    sanitize name = sanitize other → name = other
  roles : ∀ name, name ∈ graph.inputs ∨ name ∈ graph.constants ∨ name ∈ graph.outputs →
    graph.tensors.contains name = true
  nodes : ∀ node ∈ graph.nodes, ∀ name, name ∈ node.inputs ∨ name ∈ node.outputs →
    graph.tensors.contains name = true
  external : ∀ node ∈ graph.nodes, ∀ name ∈ node.outputs,
    name ∉ graph.inputs ∧ name ∉ graph.constants

/-- A graph whose names can all be bound: those with a role and those of its nodes are identifiers
that are no keywords, in identifier form. -/
structure Graph.Bindable (graph : Graph) : Prop where
  roles : ∀ name, name ∈ graph.inputs ∨ name ∈ graph.constants ∨ name ∈ graph.outputs →
    Text.isUsableIdentifier (sanitize name) = true
  nodes : ∀ node ∈ graph.nodes, ∀ name, name ∈ node.inputs ∨ name ∈ node.outputs →
    Text.isUsableIdentifier (sanitize name) = true

section Accepted

variable {graph : Graph}

/-- The loop that groups names by their form finds each form once, in the order in which the forms
first occur, with all names of it. -/
theorem groupByForm_eq (names : List String) :
    groupByForm names = ⟨(OrderedMap.dedup (names.map sanitize)).map fun form ↦
      (form, names.filter fun name ↦ sanitize name = form)⟩ :=
  OrderedMap.groupBy_eq sanitize names

/-- A name stands in the group of its form. -/
theorem mem_groupByForm {names : List String} {name : String} (hname : name ∈ names) :
    (sanitize name, names.filter fun member ↦ sanitize member = sanitize name) ∈
      (groupByForm names).entries := by
  rw [groupByForm_eq]
  exact List.mem_map_of_mem (OrderedMap.mem_dedup.mpr (List.mem_map_of_mem hname))

/-- The check of identifier forms reports names of one form. -/
theorem eq_of_nameFindings (hnames : nameFindings graph = []) {name other : String}
    (hname : graph.tensors.contains name = true) (hother : graph.tensors.contains other = true)
    (hform : sanitize name = sanitize other) : name = other := by
  rw [OrderedMap.contains_eq_true_iff] at hname hother
  have hfindings := (List.append_eq_nil_iff.mp
    (List.flatMap_eq_nil_iff.mp hnames _ (mem_groupByForm hname))).1
  have hmembers : name ∈ graph.tensors.keys.filter (fun member ↦ sanitize member = sanitize name) ∧
      other ∈ graph.tensors.keys.filter fun member ↦ sanitize member = sanitize name := by
    simp [hname, hother, hform]
  unfold collisionFindings at hfindings
  split_ifs at hfindings with hseveral
  generalize graph.tensors.keys.filter (fun member ↦ sanitize member = sanitize name) = members
    at hmembers hseveral
  match members, hmembers, hseveral with
  | [], hmembers, _ => simp at hmembers
  | [member], hmembers, _ =>
    rw [List.mem_singleton.mp hmembers.1, List.mem_singleton.mp hmembers.2]
  | _ :: _ :: _, _, hseveral => simp at hseveral

/-- The check of identifier forms reports forms that cannot be bound. -/
theorem isUsableIdentifier_of_nameFindings (hnames : nameFindings graph = []) {name : String}
    (hname : graph.tensors.contains name = true) :
    Text.isUsableIdentifier (sanitize name) = true := by
  rw [OrderedMap.contains_eq_true_iff] at hname
  have hfindings := (List.append_eq_nil_iff.mp
    (List.flatMap_eq_nil_iff.mp hnames _ (mem_groupByForm hname))).2
  unfold usabilityFindings at hfindings
  split_ifs at hfindings with hunusable
  simpa using hunusable

/-- Names of which the check of roles reports nothing are bound by no node. -/
theorem not_mem_of_boundRoles (hconsistent : graph.Consistent) {role : String} {names : List String}
    (hroles : Structure.boundRoles graph role names = .ok []) {node : Node}
    (hnode : node ∈ graph.nodes) {name : String} (hname : name ∈ node.outputs) : name ∉ names := by
  intro hrole
  have hunlisted := (Structure.boundRoles_eq_nil_iff hroles).mp rfl name hrole
  exact hunlisted ((hconsistent.listsProducer_iff name).mpr ⟨node, hnode, hname⟩)

/-- Assumes: a graph that is built and passes checks among which are the standard ones. -/
theorem accepted_of_runOnGraph (hbuilt : graph.Built) {ops : List Op} {checks : Checks}
    (hchecks : (standardChecks ops).onGraph ⊆ checks.onGraph) {severity : Severity}
    {graphName : Option String} {found : List Finding}
    (hpassed : checks.runOnGraph .preCodegen graph (some severity) graphName = .ok found) :
    graph.Accepted := by
  have hclean : Structure.Clean graph :=
    clean_of_runOnGraph (hchecks (List.mem_cons_self ..)) hpassed
  have hnames : nameFindings graph = [] :=
    names_of_runOnGraph (hchecks (List.mem_of_getElem? (i := 2) rfl)) hpassed
  refine ⟨fun name other ↦ eq_of_nameFindings hnames, hclean.registered,
    hbuilt.consistent.registered, fun node hnode name hname ↦ ?_⟩
  exact ⟨not_mem_of_boundRoles hbuilt.consistent hclean.boundInputs hnode hname,
    not_mem_of_boundRoles hbuilt.consistent hclean.boundConstants hnode hname⟩

/-- Assumes: checks that pass, among which are the standard ones. -/
theorem bindable_of_runOnGraph {ops : List Op} {checks : Checks}
    (hchecks : (standardChecks ops).onGraph ⊆ checks.onGraph) {severity : Severity}
    {graphName : Option String} {found : List Finding}
    (hpassed : checks.runOnGraph .preCodegen graph (some severity) graphName = .ok found) :
    graph.Bindable := by
  have hstructure : Structure.findings ops graph = .ok [] :=
    findings_of_runOnGraph (hchecks (List.mem_cons_self ..)) hpassed
  have hclean := Structure.clean_of_findings hstructure
  have husable (name : String) (hname : graph.tensors.contains name = true) :
      Text.isUsableIdentifier (sanitize name) = true :=
    isUsableIdentifier_of_nameFindings
      (names_of_runOnGraph (hchecks (List.mem_of_getElem? (i := 2) rfl)) hpassed) hname
  exact ⟨fun name hname ↦ husable name (hclean.registered name hname), fun node hnode name hname ↦
    husable name (Structure.registered_of_findings hstructure node hnode name hname)⟩

end Accepted

end Handover
