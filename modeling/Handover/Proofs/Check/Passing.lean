import Handover.Generation
import Handover.Proofs.Check.Exactness

/-!
# Passing the first checkpoint

What a graph is known to satisfy when its checks pass at a failing severity: no check reports an
error (`noErrors_of_runOnGraph`), and since the structure check and the check of identifier forms
report errors only, they report nothing (`findings_of_runOnGraph`, `names_of_runOnGraph`).
-/

set_option autoImplicit false
set_option relaxedAutoImplicit false

namespace Handover

section Passing

variable {checks : Checks} {ops : List Op} {graph : Graph} {severity : Severity}
  {graphName : Option String} {found : List Finding}

theorem reaches_error (severity : Severity) : Severity.error.reaches severity = true := by
  cases severity <;> rfl

theorem gate_eq_ok {checkpoint : Checkpoint} {findings : List Finding}
    (hok : Checks.gate checkpoint (some severity) graphName findings = .ok found) :
    found = findings ∧ ∀ finding ∈ findings, finding.severity ≠ .error := by
  unfold Checks.gate at hok
  dsimp only at hok
  split_ifs at hok with hreaches
  obtain rfl := Except.ok.inj hok
  refine ⟨rfl, fun finding hmem herror ↦ hreaches ?_⟩
  exact List.any_eq_true.mpr ⟨finding, hmem, by rw [herror, reaches_error]⟩

/-- The findings of a check are among those of all checks. -/
theorem subset_of_collect {α : Type} {all : List (Check α)} {target : α} {check : Check α}
    (hmem : check ∈ all) (hcollect : Checks.collect all target = .ok found) :
    ∃ own, check.run target = .ok own ∧ own ⊆ found := by
  obtain ⟨findings, hall, hfound⟩ := Result.bind_eq_ok_iff.mp hcollect
  obtain rfl := Except.ok.inj hfound
  have hrelated := Result.mapM_eq_ok_iff.mp hall
  clear hall hcollect hfound
  induction hrelated with
  | nil => simp at hmem
  | cons hhead _ ih =>
    rcases List.mem_cons.mp hmem with rfl | hmem
    · exact ⟨_, hhead, List.subset_append_left _ _⟩
    · obtain ⟨own, hown, hsubset⟩ := ih hmem
      exact ⟨own, hown, List.Subset.trans hsubset (List.subset_append_right _ _)⟩

/-- A check that runs among others which pass reports no error. -/
theorem noErrors_of_runOnGraph {check : Check Graph} (hmem : check ∈ checks.onGraph)
    (hpassed : checks.runOnGraph .preCodegen graph (some severity) graphName = .ok found) :
    ∃ own, check.run graph = .ok own ∧ ∀ finding ∈ own, finding.severity ≠ .error := by
  obtain ⟨findings, hcollect, hgate⟩ := Result.bind_eq_ok_iff.mp hpassed
  obtain ⟨own, hown, hsubset⟩ := subset_of_collect hmem hcollect
  exact ⟨own, hown, fun finding hfinding ↦ (gate_eq_ok hgate).2 finding (hsubset hfinding)⟩

theorem findings_of_runOnGraph (hmem : ⟨"structure", Structure.findings ops⟩ ∈ checks.onGraph)
    (hpassed : checks.runOnGraph .preCodegen graph (some severity) graphName = .ok found) :
    Structure.findings ops graph = .ok [] := by
  obtain ⟨own, hown, hnone⟩ := noErrors_of_runOnGraph hmem hpassed
  have herrors := Structure.severity_of_findings own hown
  have hnil : own = [] :=
    List.eq_nil_iff_forall_not_mem.mpr fun finding hfinding ↦
      hnone finding hfinding (herrors finding hfinding)
  rwa [hnil] at hown

theorem clean_of_runOnGraph (hmem : ⟨"structure", Structure.findings ops⟩ ∈ checks.onGraph)
    (hpassed : checks.runOnGraph .preCodegen graph (some severity) graphName = .ok found) :
    Structure.Clean graph :=
  Structure.clean_of_findings (findings_of_runOnGraph hmem hpassed)

/-- Every finding of the check of identifier forms is an error. -/
theorem severity_of_nameFindings : ∀ finding ∈ nameFindings graph, finding.severity = .error := by
  intro finding hfinding
  obtain ⟨group, _, hgroup⟩ := List.mem_flatMap.mp hfinding
  unfold collisionFindings usabilityFindings at hgroup
  rcases List.mem_append.mp hgroup with hgroup | hgroup
  · split_ifs at hgroup
    · rw [List.mem_singleton.mp hgroup]
      rfl
    · simp at hgroup
  · split_ifs at hgroup
    · rw [List.mem_singleton.mp hgroup]
      rfl
    · rw [List.mem_singleton.mp hgroup]
      rfl
    · simp at hgroup

theorem names_of_runOnGraph
    (hmem : ⟨"sanitized_collisions", fun graph ↦ .ok (nameFindings graph)⟩ ∈ checks.onGraph)
    (hpassed : checks.runOnGraph .preCodegen graph (some severity) graphName = .ok found) :
    nameFindings graph = [] := by
  obtain ⟨own, hown, hnone⟩ := noErrors_of_runOnGraph hmem hpassed
  obtain rfl := Except.ok.inj hown
  exact List.eq_nil_iff_forall_not_mem.mpr fun finding hfinding ↦
    hnone finding hfinding (severity_of_nameFindings finding hfinding)

end Passing

end Handover
