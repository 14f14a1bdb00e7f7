import Handover.Check.Structure
import Handover.Proofs.Computation

/-!
# Findings of the structure check

The structure check is taken apart into its parts (`findings_eq_ok_iff`), and every part yields
errors only, whose messages end in one of the endings of the part (`Structure.Ends`,
`registrations_yields` and the others). Endings tell the kinds of findings apart: a message that
ends in one of some endings is none that ends in another which fits none of them (`Ends.not_ends`).
The findings of early reads and of outputs without a producer are those with the messages of these
kinds (`Finding.IsEarlyRead`, `Finding.IsUnproduced`).
-/

set_option autoImplicit false
set_option relaxedAutoImplicit false

namespace Handover

/-- Whether every finding of a check satisfies a condition. -/
abbrev Result.Yields (condition : Finding → Prop) (result : Result (List Finding)) : Prop :=
  result.Ensures fun found ↦ ∀ finding ∈ found, condition finding

section Yields

variable {α : Type} {condition : Finding → Prop}

namespace Result

/-- The findings of the items of a list are findings of one of them. -/
theorem flatten_of_mapM {items : List α} {call : α → Result (List Finding)}
    (hcall : ∀ item ∈ items, (call item).Yields condition) {found : List (List Finding)}
    (hfound : items.mapM call = .ok found) : ∀ finding ∈ found.flatten, condition finding := by
  intro finding hfinding
  obtain ⟨findings, hmem, hfinding⟩ := List.mem_flatten.mp hfinding
  obtain ⟨item, hitem, hresult⟩ := exists_of_mem_of_mapM hfound hmem
  exact hcall item hitem findings hresult finding hfinding

end Result

end Yields

namespace Structure

/-! ### Messages -/

/-- Whether a finding is an error whose message ends in one of some texts. -/
def Ends (endings : List String) (finding : Finding) : Prop :=
  finding.severity = .error ∧ ∃ ending ∈ endings, ending.toList <:+ finding.message.toList

section Endings

variable {endings others : List String} {finding : Finding}

theorem Ends.mono (hends : Ends endings finding) (hsubset : endings ⊆ others) :
    Ends others finding :=
  ⟨hends.1, hends.2.imp fun _ h ↦ ⟨hsubset h.1, h.2⟩⟩

/-- A message ends in no text that is a part of none of its endings and of which none is a part. -/
theorem Ends.not_ends (hends : Ends endings finding) (ending : String)
    (hfits : ∀ other ∈ endings,
      ¬ other.toList <:+ ending.toList ∧ ¬ ending.toList <:+ other.toList) :
    ¬ ending.toList <:+ finding.message.toList := by
  intro hending
  obtain ⟨other, hmem, hother⟩ := hends.2
  rcases List.suffix_or_suffix_of_suffix hother hending with h | h
  · exact (hfits other hmem).1 h
  · exact (hfits other hmem).2 h

theorem suffix_append (start ending : String) : ending.toList <:+ (start ++ ending).toList := by
  rw [String.toList_append]
  exact List.suffix_append _ _

theorem ends_plainFinding (start : String) {ending : String} (hmem : ending ∈ endings) :
    Ends endings (plainFinding (start ++ ending)) :=
  ⟨rfl, ending, hmem, suffix_append start ending⟩

theorem ends_of_nodeFinding {graph : Graph} {node : Node} {start ending : String}
    (hfinding : nodeFinding graph node (start ++ ending) = .ok finding) (hmem : ending ∈ endings) :
    Ends endings finding := by
  obtain ⟨place, _, hplace⟩ := Result.bind_eq_ok_iff.mp hfinding
  obtain rfl := Except.ok.inj hplace
  exact ⟨rfl, ending, hmem, suffix_append start ending⟩

theorem findingsFor_yields {α : Type} (items : List α) (found : α → Bool) {graph : Graph}
    {node : Node} {start : α → String} {ending : α → String}
    (hmem : ∀ item, ending item ∈ endings) :
    Result.Yields (Ends endings) (findingsFor items found fun item ↦
      nodeFinding graph node (start item ++ ending item)) := by
  intro findings hfindings finding hfinding
  obtain ⟨item, _, hitem⟩ := Result.exists_of_mem_of_mapM hfindings hfinding
  exact ends_of_nodeFinding hitem (hmem item)

end Endings

/-! ### Parts of the check -/

section Parts

variable (ops : List Op) (graph : Graph)

/-- The endings of the messages about names of nodes that are not registered and about operators
without a definition. -/
def registrationEndings : List String := ["'", "' not in registry"] ++ Op.all.map Op.name

theorem mem_all (op : Op) : op ∈ Op.all := by
  cases op <;> decide

theorem registrations_yields (node : Node) :
    Result.Yields (Ends registrationEndings) (registrations ops graph node) := by
  refine Result.Ensures.bind fun inputs hinputs ↦ Result.Ensures.bind fun outputs houtputs ↦
    Result.Ensures.bind fun definitions hdefinitions ↦ Result.ensures_pure ?_
  have hin : ∀ finding ∈ inputs, Ends registrationEndings finding :=
    findingsFor_yields _ _ (fun _ ↦ by decide) inputs hinputs
  have hout : ∀ finding ∈ outputs, Ends registrationEndings finding :=
    findingsFor_yields _ _ (fun _ ↦ by decide) outputs houtputs
  have hop : ∀ finding ∈ definitions, Ends registrationEndings finding :=
    findingsFor_yields _ _ (fun op ↦ List.mem_append_right _ (List.mem_map_of_mem (mem_all op)))
      definitions hdefinitions
  intro finding hfinding
  rw [List.mem_append, List.mem_append] at hfinding
  rcases hfinding with (hfinding | hfinding) | hfinding
  · exact hin finding hfinding
  · exact hout finding hfinding
  · exact hop finding hfinding

theorem unregisteredRoles_ends (role : String) (names : List String) :
    ∀ finding ∈ unregisteredRoles graph role names, Ends ["' not in tensor registry"] finding := by
  intro finding hfinding
  obtain ⟨name, _, rfl⟩ := List.mem_map.mp hfinding
  exact ends_plainFinding _ (List.mem_singleton_self _)

theorem boundRoles_yields (role : String) (names : List String) :
    Result.Yields (Ends [" (should be external)"]) (boundRoles graph role names) := by
  refine Result.Ensures.bind fun found hfound ↦
    Result.ensures_pure (Result.flatten_of_mapM ?_ hfound)
  intro name _
  refine Result.Ensures.bind fun producers _ ↦ ?_
  cases producers with
  | nil => exact Result.ensures_pure (by simp)
  | cons node rest =>
    refine Result.Ensures.bind fun finding hfinding ↦ Result.ensures_pure ?_
    rw [List.forall_mem_singleton]
    exact ends_of_nodeFinding hfinding (List.mem_singleton_self _)

theorem outputRoles_yields :
    Result.Yields (Ends ["' is a constant", "' has no producer node"]) (outputRoles graph) := by
  refine Result.Ensures.bind fun found hfound ↦
    Result.ensures_pure (Result.flatten_of_mapM ?_ hfound)
  intro name _
  split_ifs
  · refine Result.ensures_pure ?_
    rw [List.forall_mem_singleton]
    exact ends_plainFinding _ (by decide)
  · refine Result.Ensures.bind fun producers _ ↦ ?_
    split_ifs
    · refine Result.ensures_pure ?_
      rw [List.forall_mem_singleton]
      exact ends_plainFinding _ (by decide)
    · exact Result.ensures_pure (by simp)

theorem earlyReads_yields (defined : List String) (nodes : List Node) :
    Result.Yields (Ends ["' before any node produces it"]) (earlyReads graph defined nodes) := by
  induction nodes generalizing defined with
  | nil => exact Result.ensures_pure (by simp)
  | cons node rest ih =>
    refine Result.Ensures.bind fun found hfound ↦ Result.Ensures.bind fun later hlater ↦
      Result.ensures_pure ?_
    intro finding hfinding
    rcases List.mem_append.mp hfinding with hfinding | hfinding
    · exact findingsFor_yields _ _ (fun _ ↦ List.mem_singleton_self _) found hfound finding hfinding
    · exact ih _ later hlater finding hfinding

theorem splitArity_yields (node : Node) :
    Result.Yields (Ends [" sizes"]) (splitArity graph node) := by
  unfold splitArity
  split
  · exact Result.ensures_pure (by simp)
  · refine Result.Ensures.bind fun count _ ↦ ?_
    split_ifs
    · exact Result.ensures_pure (by simp)
    · refine Result.Ensures.bind fun finding hfinding ↦ Result.ensures_pure ?_
      rw [List.forall_mem_singleton]
      exact ends_of_nodeFinding hfinding (List.mem_singleton_self _)

variable {ops graph}

/-- The findings of the structure check, part by part. -/
theorem findings_eq_ok_iff {found : List Finding} :
    findings ops graph = .ok found ↔
      ∃ registered boundInputs boundConstants outputs reads arities,
        graph.nodes.mapM (registrations ops graph) = .ok registered ∧
        boundRoles graph "input" graph.inputs = .ok boundInputs ∧
        boundRoles graph "constant" graph.constants = .ok boundConstants ∧
        outputRoles graph = .ok outputs ∧
        earlyReads graph (graph.inputs ++ graph.constants) graph.nodes = .ok reads ∧
        graph.nodes.mapM (splitArity graph) = .ok arities ∧
        found = registered.flatten ++ (unregisteredRoles graph "input" graph.inputs ++
          unregisteredRoles graph "constant" graph.constants ++
          unregisteredRoles graph "output" graph.outputs) ++ boundInputs ++ boundConstants ++
          outputs ++ reads ++ arities.flatten := by
  unfold findings
  simp only [Result.bind_eq_ok_iff]
  constructor
  · rintro ⟨registered, hregistered, boundInputs, hinputs, boundConstants, hconstants, outputs,
      houtputs, reads, hreads, arities, harities, hfound⟩
    exact ⟨registered, boundInputs, boundConstants, outputs, reads, arities, hregistered, hinputs,
      hconstants, houtputs, hreads, harities, (Except.ok.inj hfound).symm⟩
  · rintro ⟨registered, boundInputs, boundConstants, outputs, reads, arities, hregistered, hinputs,
      hconstants, houtputs, hreads, harities, rfl⟩
    exact ⟨registered, hregistered, boundInputs, hinputs, boundConstants, hconstants, outputs,
      houtputs, reads, hreads, arities, harities, rfl⟩

/-- Every finding of the structure check is an error. -/
theorem severity_of_findings :
    Result.Yields (fun finding ↦ finding.severity = .error) (findings ops graph) := by
  intro found hfound finding hfinding
  obtain ⟨registered, boundInputs, boundConstants, outputs, reads, arities, hregistered, hinputs,
    hconstants, houtputs, hreads, harities, rfl⟩ := findings_eq_ok_iff.mp hfound
  simp only [List.mem_append] at hfinding
  rcases hfinding with (((((hfinding | (hfinding | hfinding) | hfinding) | hfinding) | hfinding) |
    hfinding) | hfinding) | hfinding
  · exact (Result.flatten_of_mapM (fun node _ ↦ registrations_yields ops graph node) hregistered
      finding hfinding).1
  · exact (unregisteredRoles_ends graph _ _ finding hfinding).1
  · exact (unregisteredRoles_ends graph _ _ finding hfinding).1
  · exact (unregisteredRoles_ends graph _ _ finding hfinding).1
  · exact (boundRoles_yields graph _ _ boundInputs hinputs finding hfinding).1
  · exact (boundRoles_yields graph _ _ boundConstants hconstants finding hfinding).1
  · exact (outputRoles_yields graph outputs houtputs finding hfinding).1
  · exact (earlyReads_yields graph _ _ reads hreads finding hfinding).1
  · exact (Result.flatten_of_mapM (fun node _ ↦ splitArity_yields graph node) harities
      finding hfinding).1

end Parts

end Structure

end Handover
