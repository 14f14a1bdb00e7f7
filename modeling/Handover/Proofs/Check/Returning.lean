import Handover.Proofs.Check.Structure
import Handover.Proofs.Graph.Building

/-!
# Whether the structure check returns

The structure check looks up the places of nodes and the producers of the names with a role. Where
these lookups return (`Graph.LooksUp`), as they do in every graph whose indices agree with its nodes
(`Graph.Consistent.looksUp`), the check returns exactly when the attribute `sizes` of every node can
be measured (`Structure.findings_returns_iff_of_looksUp`), and otherwise it fails as measuring fails
(`Structure.findings_eq_error_of_looksUp`).
-/

set_option autoImplicit false
set_option relaxedAutoImplicit false

namespace Handover

namespace Graph

/-- Whether the lookups that the checks of a graph make return: the place of each node, and the
producers of each name with a role. -/
structure LooksUp (graph : Graph) : Prop where
  places : ∀ node ∈ graph.nodes, (graph.indexOf node.id).Returns
  producers : ∀ name, name ∈ graph.inputs ∨ name ∈ graph.constants ∨ name ∈ graph.outputs →
    (graph.producers name).Returns

variable {graph : Graph}

theorem Consistent.looksUp (hconsistent : graph.Consistent) : graph.LooksUp where
  places := by
    intro node hnode
    obtain ⟨index, hindex⟩ := List.mem_iff_getElem?.mp hnode
    exact ⟨index, hconsistent.indexOf hindex⟩
  producers := fun name _ ↦ ⟨_, hconsistent.producers name⟩

theorem mem_of_itemAt {α : Type} {items : List α} {index : Int} {item : α}
    (hitem : itemAt items index = .ok item) : item ∈ items := by
  unfold itemAt at hitem
  split at hitem
  · next found hfound =>
    obtain rfl := Except.ok.inj hitem
    unfold itemAt? at hfound
    dsimp only at hfound
    split_ifs at hfound
    all_goals exact List.mem_of_getElem? hfound
  · cases hitem

/-- The producers of a name are nodes of the graph, also where the index is not in step. -/
theorem mem_of_producers {name : String} {producers : List Node}
    (hproducers : graph.producers name = .ok producers) :
    ∀ node ∈ producers, node ∈ graph.nodes := by
  intro node hnode
  obtain ⟨id, _, hid⟩ := Result.exists_of_mem_of_mapM hproducers hnode
  obtain ⟨place, _, hplace⟩ := Result.bind_eq_ok_iff.mp hid
  exact mem_of_itemAt hplace

end Graph

namespace Structure

variable {ops : List Op} {graph : Graph}

/-! ### Values with a number of items -/

/-- Whether a value has a number of items, or stands for no value. -/
def isMeasurable : Attr → Bool
  | .null | .text _ | .list _ | .tuple _ _ | .record _ => true
  | _ => false

/-- Whether the attribute `sizes` of a node has a number of items, or is not there. -/
def hasMeasurableSizes (node : Node) : Bool :=
  isMeasurable ((node.attrs.find? "sizes").getD .null)

theorem itemCount_returns_iff {value : Attr} (hvalue : value ≠ .null) :
    (itemCount value).Returns ↔ isMeasurable value = true := by
  cases value with
  | null => exact absurd rfl hvalue
  | text | list | tuple | record => exact iff_of_true ⟨_, rfl⟩ rfl
  | bool | int | real | scalar => exact iff_of_false (fun ⟨_, h⟩ ↦ by cases h) Bool.false_ne_true

theorem splitArity_eq_error {node : Node} (hsizes : hasMeasurableSizes node = false) :
    splitArity graph node = fails .wrongKind := by
  unfold splitArity
  unfold hasMeasurableSizes at hsizes
  generalize (node.attrs.find? "sizes").getD .null = sizes at hsizes ⊢
  cases sizes with
  | null | text | list | tuple | record => cases hsizes
  | bool | int | real | scalar => rfl

/-! ### Parts of the check -/

section Parts

variable (hlooks : graph.LooksUp)

include hlooks

theorem nodeFinding_returns {node : Node} (hnode : node ∈ graph.nodes) (message : String) :
    (nodeFinding graph node message).Returns :=
  (hlooks.places node hnode).bind fun _ _ ↦ Result.returns_pure _

theorem findingsFor_returns {α : Type} {node : Node} (hnode : node ∈ graph.nodes) (items : List α)
    (found : α → Bool) (message : α → String) :
    (findingsFor items found fun item ↦ nodeFinding graph node (message item)).Returns :=
  Result.Returns.mapM fun _ _ ↦ nodeFinding_returns hlooks hnode _

theorem registrations_returns (ops : List Op) {node : Node} (hnode : node ∈ graph.nodes) :
    (registrations ops graph node).Returns :=
  (findingsFor_returns hlooks hnode _ _ _).bind fun _ _ ↦
    (findingsFor_returns hlooks hnode _ _ _).bind fun _ _ ↦
      (findingsFor_returns hlooks hnode _ _ _).bind fun _ _ ↦ Result.returns_pure _

theorem boundRoles_returns (role : String) {names : List String}
    (hnames : ∀ name ∈ names, (graph.producers name).Returns) :
    (boundRoles graph role names).Returns := by
  refine Result.Returns.bind (Result.Returns.mapM fun name hname ↦ ?_) fun _ _ ↦
    Result.returns_pure _
  refine (hnames name hname).bind fun producers hproducers ↦ ?_
  cases producers with
  | nil => exact Result.returns_pure _
  | cons node rest =>
    have hnode := Graph.mem_of_producers hproducers node (List.mem_cons_self ..)
    exact (nodeFinding_returns hlooks hnode _).bind fun _ _ ↦ Result.returns_pure _

theorem outputRoles_returns : (outputRoles graph).Returns := by
  refine Result.Returns.bind (Result.Returns.mapM fun name hname ↦ ?_) fun _ _ ↦
    Result.returns_pure _
  split_ifs
  · exact Result.returns_pure _
  · refine (hlooks.producers name (.inr (.inr hname))).bind fun producers _ ↦ ?_
    split_ifs <;> exact Result.returns_pure _

theorem earlyReads_returns (defined : List String) {nodes : List Node}
    (hnodes : ∀ node ∈ nodes, node ∈ graph.nodes) : (earlyReads graph defined nodes).Returns := by
  induction nodes generalizing defined with
  | nil => exact ⟨[], rfl⟩
  | cons node rest ih =>
    rw [List.forall_mem_cons] at hnodes
    exact (findingsFor_returns hlooks hnodes.1 _ _ _).bind fun _ _ ↦
      (ih _ hnodes.2).bind fun _ _ ↦ Result.returns_pure _

theorem splitArity_returns_iff {node : Node} (hnode : node ∈ graph.nodes) :
    (splitArity graph node).Returns ↔ hasMeasurableSizes node = true := by
  unfold splitArity hasMeasurableSizes
  generalize (node.attrs.find? "sizes").getD .null = sizes
  split
  · exact iff_of_true (Result.returns_pure _) rfl
  · rename_i hsizes
    rw [← itemCount_returns_iff hsizes]
    constructor
    · rintro ⟨found, hfound⟩
      obtain ⟨count, hcount, _⟩ := Result.bind_eq_ok_iff.mp hfound
      exact ⟨count, hcount⟩
    · refine fun hcount ↦ hcount.bind fun count _ ↦ ?_
      split_ifs
      · exact Result.returns_pure _
      · exact (nodeFinding_returns hlooks hnode _).bind fun _ _ ↦ Result.returns_pure _

/-- Every part of the check returns but the last one, which measures the attributes `sizes`. -/
theorem findings_eq_bind_of_looksUp (ops : List Op) :
    ∃ earlier, findings ops graph = (do
      let arities ← graph.nodes.mapM (splitArity graph)
      return earlier ++ arities.flatten) := by
  obtain ⟨registered, hregistered⟩ := Result.Returns.mapM fun node (hnode : node ∈ graph.nodes) ↦
    registrations_returns hlooks ops hnode
  obtain ⟨boundInputs, hinputs⟩ := boundRoles_returns hlooks "input" fun name hname ↦
    hlooks.producers name (.inl hname)
  obtain ⟨boundConstants, hconstants⟩ := boundRoles_returns hlooks "constant" fun name hname ↦
    hlooks.producers name (.inr (.inl hname))
  obtain ⟨outputs, houtputs⟩ := outputRoles_returns hlooks
  obtain ⟨reads, hreads⟩ := earlyReads_returns hlooks (graph.inputs ++ graph.constants)
    fun node hnode ↦ hnode
  refine ⟨registered.flatten ++ (unregisteredRoles graph "input" graph.inputs ++
    unregisteredRoles graph "constant" graph.constants ++
    unregisteredRoles graph "output" graph.outputs) ++ boundInputs ++ boundConstants ++ outputs ++
    reads, ?_⟩
  unfold findings
  rw [hregistered, Result.ok_bind]
  dsimp only
  rw [hinputs, Result.ok_bind, hconstants, Result.ok_bind, houtputs, Result.ok_bind, hreads,
    Result.ok_bind]

/-- The structure check returns exactly when the attribute `sizes` of every node has a number of
items or is not there. -/
theorem findings_returns_iff_of_looksUp :
    (findings ops graph).Returns ↔ ∀ node ∈ graph.nodes, hasMeasurableSizes node = true := by
  obtain ⟨earlier, hfindings⟩ := findings_eq_bind_of_looksUp hlooks ops
  rw [hfindings]
  constructor
  · rintro ⟨found, hfound⟩ node hnode
    obtain ⟨arities, harities, _⟩ := Result.bind_eq_ok_iff.mp hfound
    obtain ⟨own, _, hown⟩ := Result.exists_result_of_mem harities hnode
    exact (splitArity_returns_iff hlooks hnode).mp ⟨own, hown⟩
  · intro hsizes
    refine Result.Returns.bind (Result.Returns.mapM fun node hnode ↦ ?_) fun _ _ ↦
      Result.returns_pure _
    exact (splitArity_returns_iff hlooks hnode).mpr (hsizes node hnode)

/-- Where the attribute `sizes` of some node cannot be measured, the structure check fails with what
measuring it fails with, and no finding is reported. -/
theorem findings_eq_error_of_looksUp {node : Node} (hnode : node ∈ graph.nodes)
    (hsizes : hasMeasurableSizes node = false) : findings ops graph = fails .wrongKind := by
  obtain ⟨earlier, hfindings⟩ := findings_eq_bind_of_looksUp hlooks ops
  have harities : graph.nodes.mapM (splitArity graph) = fails .wrongKind := by
    refine Result.mapM_eq_error_of_mem hnode (splitArity_eq_error hsizes) fun other hother ↦ ?_
    cases hother' : hasMeasurableSizes other with
    | true => exact .inl ((splitArity_returns_iff hlooks hother).mpr hother')
    | false => exact .inr (splitArity_eq_error hother')
  rw [hfindings, harities]
  rfl

end Parts

end Structure

end Handover
