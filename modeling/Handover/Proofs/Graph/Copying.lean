import Handover.Generation
import Handover.Proofs.Graph.Additions
import Handover.Proofs.Graph.Recording

/-!
# Copies of a graph

The record of a graph has everything of it but the data of its tensors and its indices. The graph
that is read from the record numbers its nodes by their places, so it is the one that was built,
without its data, exactly if that one does (`ofRecord_toRecord`); where an identifier was lost it
does not (`lost_identifier_not_copied`). The checks of a graph and the generation of its module read
neither data nor the next identifier (`Graph.outline`), so they end for the copy as they end for the
graph (`runOnGraph_outline`, `generate_outline`).
-/

set_option autoImplicit false
set_option relaxedAutoImplicit false

namespace Handover

namespace Graph

/-- What is read of a graph where neither its data nor its next identifier is. -/
def outline (graph : Graph) : Graph :=
  { graph with tensors := graph.tensors.mapValues TensorInfo.withoutData, nextId := 0 }

variable (graph : Graph)

theorem contains_outline (name : String) :
    graph.outline.tensors.contains name = graph.tensors.contains name := by
  rw [Bool.eq_iff_iff, OrderedMap.contains_eq_true_iff, OrderedMap.contains_eq_true_iff,
    outline, OrderedMap.keys_mapValues]

/-- A call that looks a tensor up and overlooks its data. -/
theorem bind_tensor_outline {β : Type} (name : String) (next : TensorInfo → Result β)
    (hnext : ∀ info : TensorInfo, next info.withoutData = next info) :
    graph.outline.tensor name >>= next = graph.tensor name >>= next := by
  unfold tensor
  rw [outline, OrderedMap.find?_mapValues]
  cases graph.tensors.find? name with
  | none => rfl
  | some info => exact hnext info

theorem toRecord_outline : graph.outline.toRecord = graph.toRecord := by
  simp only [toRecord, recordFields, outline, OrderedMap.mapValues, List.map_map]
  rfl

theorem describe_outline (name : String) :
    graph.outline.describe name = graph.describe name :=
  graph.bind_tensor_outline name _ fun _ ↦ rfl

theorem size_outline : graph.outline.tensors.size = graph.tensors.size :=
  List.length_map ..

theorem summary_outline : graph.outline.summary = graph.summary := by
  have hdescribe : graph.outline.describe = graph.describe :=
    funext graph.describe_outline
  unfold summary
  rw [hdescribe, size_outline]
  rfl

end Graph

/-! ### Checks -/

section Checks

variable (graph : Graph) (ops : List Op)

namespace Structure

theorem registrations_outline (node : Node) :
    registrations ops graph.outline node = registrations ops graph node := by
  unfold registrations
  simp only [graph.contains_outline]
  rfl

theorem unregisteredRoles_outline (role : String) (names : List String) :
    unregisteredRoles graph.outline role names = unregisteredRoles graph role names := by
  unfold unregisteredRoles
  simp only [graph.contains_outline]

theorem earlyReads_outline (defined : List String) (nodes : List Node) :
    earlyReads graph.outline defined nodes = earlyReads graph defined nodes := by
  induction nodes generalizing defined with
  | nil => rfl
  | cons node rest ih =>
    simp only [earlyReads, graph.contains_outline, ih]
    rfl

/-- The structure check overlooks data and the next identifier. -/
theorem findings_outline : findings ops graph.outline = findings ops graph := by
  have hregistrations : registrations ops graph.outline = registrations ops graph :=
    funext (registrations_outline graph ops)
  unfold findings
  simp only [hregistrations, unregisteredRoles_outline, earlyReads_outline]
  rfl

end Structure

theorem nameFindings_outline : nameFindings graph.outline = nameFindings graph := by
  unfold nameFindings
  rw [Graph.outline, OrderedMap.keys_mapValues]

/-- The checks that are registered from the start overlook data and the next identifier. -/
theorem collect_outline :
    Checks.collect (standardChecks ops).onGraph graph.outline =
      Checks.collect (standardChecks ops).onGraph graph := by
  simp only [Checks.collect, standardChecks, List.mapM_cons, Structure.findings_outline,
    nameFindings_outline]
  rfl

theorem runOnGraph_outline (checkpoint : Checkpoint) (failOn : Option Severity)
    (graphName : Option String) :
    (standardChecks ops).runOnGraph checkpoint graph.outline failOn graphName =
      (standardChecks ops).runOnGraph checkpoint graph failOn graphName := by
  unfold Checks.runOnGraph
  rw [collect_outline]
  rfl

end Checks

/-! ### Generation -/

section Generation

variable (graph : Graph) (ops : List Op)

theorem sameForm_outline (first output : String) : (do
      let source ← graph.outline.tensor first
      let target ← graph.outline.tensor output
      return Attr.sameItems source.shape target.shape &&
        source.elementType == target.elementType : Result Bool) = (do
      let source ← graph.tensor first
      let target ← graph.tensor output
      return Attr.sameItems source.shape target.shape &&
        source.elementType == target.elementType) := by
  have htarget (source : TensorInfo) := graph.bind_tensor_outline output
    (fun target ↦ pure (Attr.sameItems source.shape target.shape &&
      source.elementType == target.elementType)) fun _ ↦ rfl
  simp only [htarget]
  exact graph.bind_tensor_outline first _ fun _ ↦ rfl

theorem ownsFirstInput_outline (node : Node) :
    ownsFirstInput ops graph.outline node = ownsFirstInput ops graph node := by
  unfold ownsFirstInput
  simp only [sameForm_outline]

theorem nodeExpression_outline (node : Node) (references : List String) :
    nodeExpression ops graph.outline node references =
      nodeExpression ops graph node references := by
  unfold nodeExpression
  rw [ownsFirstInput_outline]

theorem emitStatement_outline (style : ReferenceStyle) (node : Node) (index : Nat) :
    emitStatement ops graph.outline style node index =
      emitStatement ops graph style node index := by
  unfold emitStatement
  simp only [ownsFirstInput_outline, nodeExpression_outline]
  rfl

/-- Writing a body overlooks data and the next identifier. -/
theorem writeBody_outline (style : ReferenceStyle) :
    writeBody ops graph.outline style = writeBody ops graph style := by
  unfold writeBody emitBody
  simp only [emitStatement_outline]
  rfl

theorem bufferLine_outline (name : String) :
    bufferLine graph.outline name = bufferLine graph name :=
  graph.bind_tensor_outline name _ fun _ ↦ rfl

theorem moduleText_outline (className : String) (body : Body) :
    moduleText graph.outline className body = moduleText graph className body := by
  have hline : bufferLine graph.outline = bufferLine graph :=
    funext (bufferLine_outline graph)
  unfold moduleText moduleLines
  rw [hline]
  rfl

theorem generate_outline (options : Options) :
    generate ⟨ops, standardChecks ops⟩ options graph.outline =
      generate ⟨ops, standardChecks ops⟩ options graph := by
  unfold generate
  simp only [Graph.summary_outline, runOnGraph_outline, writeBody_outline,
    moduleText_outline]
  rfl

end Generation

/-! ### Copies -/

section Copies

/-- A copy of a graph has everything of it but the data of its tensors: the same parts, the same
answers to lookups, the same record, and the same findings and module. -/
structure Graph.IsCopy (graph copy : Graph) : Prop where
  name : copy.name = graph.name
  nodes : copy.nodes = graph.nodes
  tensors : copy.tensors.entries =
    graph.tensors.entries.map fun entry ↦ (entry.1, { entry.2 with buffer := none })
  inputs : copy.inputs = graph.inputs
  outputs : copy.outputs = graph.outputs
  constants : copy.constants = graph.constants
  node : ∀ id, copy.node id = graph.node id
  indexOf : ∀ id, copy.indexOf id = graph.indexOf id
  producers : ∀ name, copy.producers name = graph.producers name
  consumers : ∀ name, copy.consumers name = graph.consumers name
  record : copy.toRecord = graph.toRecord
  checks : ∀ ops failOn graphName,
    (standardChecks ops).runOnGraph .preCodegen copy failOn graphName =
      (standardChecks ops).runOnGraph .preCodegen graph failOn graphName
  generated : ∀ ops options trace,
    generate ⟨ops, standardChecks ops⟩ options copy trace =
      generate ⟨ops, standardChecks ops⟩ options graph trace

/-- A graph without its data and with any next identifier is a copy. -/
theorem Graph.isCopy_withoutData (graph : Graph) (next : Nat) :
    graph.IsCopy { graph.withoutData with nextId := next } := by
  let copy : Graph := { graph.withoutData with nextId := next }
  have houtline : copy.outline = graph.outline := by
    simp only [copy, outline, withoutData, OrderedMap.mapValues, List.map_map]
    rfl
  exact
    { name := rfl
      nodes := rfl
      tensors := rfl
      inputs := rfl
      outputs := rfl
      constants := rfl
      node := fun _ ↦ rfl
      indexOf := fun _ ↦ rfl
      producers := fun _ ↦ rfl
      consumers := fun _ ↦ rfl
      record := by rw [← copy.toRecord_outline, houtline, graph.toRecord_outline]
      checks := fun ops failOn graphName ↦ by
        rw [← runOnGraph_outline copy, houtline, runOnGraph_outline]
      generated := fun ops options trace ↦ by
        rw [← generate_outline copy, houtline, generate_outline] }

/-- The record of a graph that is built is read back as a copy of the graph with its nodes numbered
by their places. That is a copy of the graph itself exactly if its nodes are numbered so already. -/
theorem Graph.ofRecord_toRecord {graph : Graph} (hbuilt : graph.Built) :
    ∃ copy, Graph.ofRecord graph.toRecord = .ok copy ∧ graph.renumbered.IsCopy copy ∧
      (graph.IsCopy copy ↔ graph.nodes.map Node.id = List.range graph.nodes.length) := by
  have hread : Graph.ofRecord graph.toRecord = .ok graph.renumbered.withoutData := by
    rw [Graph.toRecord, ← List.append_nil graph.recordFields]
    exact Graph.ofRecord_recordFields hbuilt.replayable []
  rw [List.range_eq_range', ← Graph.numberedFrom_eq_self_iff]
  refine ⟨_, hread, graph.renumbered.isCopy_withoutData _, fun hcopy ↦ hcopy.nodes, fun hids ↦ ?_⟩
  have hsame : graph.renumbered = { graph with nextId := graph.nodes.length } := by
    simp only [Graph.renumbered, hids]
    rw [← hbuilt.indexed.producerIds, ← hbuilt.indexed.consumerIds, ← hbuilt.indexed.places]
  rw [hsame]
  exact graph.isCopy_withoutData graph.nodes.length

/-- A graph that is built in mixed order: a tensor is registered after a node, a name is bound
twice, and a node reads the later value twice. -/
def interleaved : Graph :=
  (Graph.make "interleaved"
    [.input "x" [.int 2] "float32", .tensor "h" [.int 2] "float32",
      .node .exp ["x"] ["h"] ⟨[("scale", .scalar ⟨.int64, 3⟩)]⟩,
      .constant "w" (Tensor.tabulate .int64 [2] fun index ↦ Word.ofInt .int64 (index.getD 0 0)),
      .tensor "y" [.int 2] "float32", .node .mul ["h", "w"] ["h"] {},
      .node .add ["h", "h"] ["y"] {}] ["y"]).toOption.get rfl

/-- The graph that is built in mixed order is copied. -/
theorem ofRecord_toRecord_interleaved :
    interleaved.Built ∧ ∃ copy, Graph.ofRecord interleaved.toRecord = .ok copy ∧
      interleaved.IsCopy copy := by
  have hbuilt : interleaved.Built := (Graph.built_make _ _ _).get rfl
  obtain ⟨copy, hread, -, hcopy⟩ := Graph.ofRecord_toRecord hbuilt
  exact ⟨hbuilt, copy, hread, hcopy.mpr (by decide +kernel)⟩

/-- A graph with one node, before which a call lost an identifier. -/
def oneLost : Graph := ({ name := "one_lost" } : Graph).after Graph.losingAdditions

/-- The node after a lost identifier has another identifier in the copy. -/
theorem lost_identifier_not_copied :
    oneLost.Built ∧ oneLost.nodes.map Node.id = [1] ∧ (oneLost.node 1).toOption.isSome = true ∧
      ∃ copy, Graph.ofRecord oneLost.toRecord = .ok copy ∧ copy.nodes.map Node.id = [0] ∧
        (copy.node 1).toOption.isSome = false := by
  have hbuilt : oneLost.Built := .after (.empty _) _
  have hids : ∀ copy ∈ (Graph.ofRecord oneLost.toRecord).toOption,
      copy.nodes.map Node.id = [0] ∧ (copy.node 1).toOption.isSome = false := by decide +kernel
  obtain ⟨copy, hread⟩ : (Graph.ofRecord oneLost.toRecord).Returns :=
    Result.returns_of_isSome (by decide +kernel)
  exact ⟨hbuilt, by decide +kernel, by decide +kernel, copy, hread,
    hids copy (congrArg Except.toOption hread)⟩

end Copies

end Handover
