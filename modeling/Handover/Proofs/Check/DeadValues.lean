import Handover.Check.Values
import Handover.Proofs.Graph.Building

/-!
# Reports of dead values

The check of dead values returns on every graph whose indices agree with its nodes, and it reports
an output of a node there exactly when no node reads the name and the graph does not return it
(`Graph.IsUnused`, `exists_deadValues`). A report is about a name of a node, not about one of the
values that the name stands for in turn: where a name is bound again, all its values are reported or
none is.
-/

set_option autoImplicit false
set_option relaxedAutoImplicit false

namespace Handover

/-- The wording of the finding that an output of a node is dead. -/
def Node.deadMessage (node : Node) (name : String) : String :=
  node.op.name ++ " output '" ++ name ++ "' is never used"

/-- Whether an output of a node is reported as dead. -/
def Node.isReportedDead (node : Node) (found : List Finding) (name : String) : Bool :=
  found.any fun finding ↦
    finding.node = some (node.id : Int) ∧ finding.message = node.deadMessage name

/-- Whether no node reads a name and the graph does not return it. -/
def Graph.IsUnused (graph : Graph) (name : String) : Prop :=
  (∀ node ∈ graph.nodes, name ∉ node.inputs) ∧ name ∉ graph.outputs

section Reports

variable {graph : Graph} {node other : Node} {name : String} {found : List Finding}

theorem mem_deadOutputs_iff :
    name ∈ deadOutputs graph node ↔ name ∈ node.outputs ∧ graph.IsUnused name := by
  simp [deadOutputs, Graph.IsUnused, OrderedMap.mem_dedup]

theorem isReportedDead_iff :
    node.isReportedDead found name = true ↔
      ∃ finding ∈ found, finding.node = some (node.id : Int) ∧
        finding.message = node.deadMessage name := by
  simp [Node.isReportedDead]

theorem deadMessage_inj {first second : String}
    (heq : node.deadMessage first = node.deadMessage second) : first = second := by
  have hlists := congrArg String.toList heq
  simp only [Node.deadMessage, String.toList_append] at hlists
  exact String.toList_injective
    (List.append_cancel_left (List.append_cancel_right hlists))

end Reports

/-! ### What is reported -/

namespace Graph

/-- The findings about the outputs of a node, which is found at its place. -/
def deadFindings (graph : Graph) (node : Node) : List Finding :=
  (deadOutputs graph node).map fun name ↦
    ⟨"dead_values", .info, node.deadMessage name, some node.id,
      (graph.places.find? node.id).map Int.ofNat⟩

variable {graph : Graph} {node : Node} {name : String}

theorem mem_deadFindings_iff {finding : Finding} :
    finding ∈ graph.deadFindings node ↔ ∃ name, (name ∈ node.outputs ∧ graph.IsUnused name) ∧
      finding = ⟨"dead_values", .info, node.deadMessage name, some node.id,
        (graph.places.find? node.id).map Int.ofNat⟩ := by
  unfold deadFindings
  rw [List.mem_map]
  refine exists_congr fun name ↦ ?_
  rw [mem_deadOutputs_iff, eq_comm]

section Consistent

variable (hconsistent : graph.Consistent)

include hconsistent

theorem Consistent.eq_of_id_eq {first second : Node} (hfirst : first ∈ graph.nodes)
    (hsecond : second ∈ graph.nodes) (hid : first.id = second.id) : first = second := by
  obtain ⟨place, hplace⟩ := List.mem_iff_getElem?.mp hfirst
  obtain ⟨index, hindex⟩ := List.mem_iff_getElem?.mp hsecond
  have hsame := hconsistent.places place first hplace
  rw [hid, hconsistent.places index second hindex] at hsame
  rw [← Option.some.inj hsame, hindex] at hplace
  exact (Option.some.inj hplace).symm

/-- The check of dead values returns, with the findings of the nodes one after the other. -/
theorem Consistent.deadValues_eq :
    deadValues graph = .ok (graph.nodes.flatMap graph.deadFindings) := by
  have hnodes : (graph.nodes.mapM fun node ↦ (deadOutputs graph node).mapM fun name ↦
      placedFinding graph "dead_values" .info node
        (node.op.name ++ " output '" ++ name ++ "' is never used")) =
      .ok (graph.nodes.map graph.deadFindings) := by
    rw [Result.mapM_eq_ok_iff, List.forall₂_map_right_iff, List.forall₂_same]
    intro node hnode
    unfold deadFindings
    rw [Result.mapM_eq_ok_iff, List.forall₂_map_right_iff, List.forall₂_same]
    intro name _
    obtain ⟨place, hplace⟩ := List.mem_iff_getElem?.mp hnode
    unfold placedFinding
    rw [hconsistent.indexOf hplace, hconsistent.places place node hplace]
    rfl
  unfold deadValues
  rw [hnodes]
  rfl

/-- What is reported of a node is what is unused among its outputs, also where other nodes bind the
same names. -/
theorem Consistent.isReportedDead_iff (hnode : node ∈ graph.nodes) :
    node.isReportedDead (graph.nodes.flatMap graph.deadFindings) name = true ↔
      name ∈ node.outputs ∧ graph.IsUnused name := by
  rw [Handover.isReportedDead_iff]
  constructor
  · rintro ⟨finding, hfinding, hid, hmessage⟩
    obtain ⟨other, hother, hfinding⟩ := List.mem_flatMap.mp hfinding
    obtain ⟨unused, hunused, rfl⟩ := mem_deadFindings_iff.mp hfinding
    obtain rfl := hconsistent.eq_of_id_eq hother hnode (Int.ofNat.inj (Option.some.inj hid))
    obtain rfl := deadMessage_inj hmessage
    exact hunused
  · intro hunused
    exact ⟨_, List.mem_flatMap.mpr ⟨node, hnode, mem_deadFindings_iff.mpr ⟨name, hunused, rfl⟩⟩,
      rfl, rfl⟩

/-- The check of dead values returns, and it reports the unused outputs of nodes. -/
theorem Consistent.exists_deadValues :
    ∃ found, deadValues graph = .ok found ∧ ∀ node ∈ graph.nodes, ∀ name,
      node.isReportedDead found name = true ↔ name ∈ node.outputs ∧ graph.IsUnused name :=
  ⟨_, hconsistent.deadValues_eq, fun _ hnode _ ↦ hconsistent.isReportedDead_iff hnode⟩

end Consistent

end Graph

end Handover
