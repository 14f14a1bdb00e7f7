import Handover.Proofs.Check.Passing
import Handover.Proofs.Check.Returning
import Handover.Proofs.Graph.Calls
import Handover.Proofs.Graph.Rebuilding

/-!
# The verdict on a copy

The checks of a graph report an error exactly if they return on a graph that does not pass for its
index of producers (`reportsError_iff`). The graph that is read from the record of a graph has the
same nodes, names and roles, but its index is built anew. So the checks judge the copy by what its
nodes bind, and the graph itself by what its index lists (`verdict_of_copy`). The two verdicts agree
as long as the nodes keep the outputs that they were added with: inputs, attributes and roles may be
assigned at will. Where outputs or the list of nodes are assigned, the index is stale, and a graph
that nothing is reported of can fail in the middle of its generation (`stale_index_unreported`).
-/

set_option autoImplicit false
set_option relaxedAutoImplicit false

namespace Handover

/-! ### The verdict of the checks -/

namespace Graph

/-- Whether the checks of a graph return, whatever they find. -/
def IsChecked (graph : Graph) (ops : List Op) : Prop :=
  ((standardChecks ops).runOnGraph .preCodegen graph none none).Returns

/-- Whether the checks of a graph report an error. -/
def ReportsError (graph : Graph) (ops : List Op) : Prop :=
  ∃ found, (standardChecks ops).runOnGraph .preCodegen graph none none = .ok found ∧
    ∃ finding ∈ found, finding.severity = .error

theorem reportsError_iff_any {graph : Graph} {ops : List Op} :
    graph.ReportsError ops ↔
      (((standardChecks ops).runOnGraph .preCodegen graph none none).toOption.any
        fun found ↦ found.any fun finding ↦ finding.severity = .error) = true := by
  unfold ReportsError
  cases (standardChecks ops).runOnGraph .preCodegen graph none none with
  | error err => simp [Except.toOption]
  | ok found => simp [Except.toOption]

instance (graph : Graph) (ops : List Op) : Decidable (graph.ReportsError ops) :=
  decidable_of_iff _ reportsError_iff_any.symm

end Graph

section Verdict

variable {ops : List Op} {graph : Graph} {found : List Finding}

theorem severity_of_placedFindings {α : Type} {check : String} {severity : Severity}
    {items : List α} {node : Node} {message : α → String}
    (hfound : (items.mapM fun item ↦ placedFinding graph check severity node (message item)) =
      .ok found) : ∀ finding ∈ found, finding.severity = severity := by
  intro finding hfinding
  obtain ⟨item, _, hitem⟩ := Result.exists_of_mem_of_mapM hfound hfinding
  obtain ⟨place, _, hplace⟩ := Result.bind_eq_ok_iff.mp hitem
  obtain rfl := Except.ok.inj hplace
  rfl

theorem severity_of_repeatedOutputs :
    (repeatedOutputs graph).Yields fun finding ↦ finding.severity = .warning := by
  refine Result.Ensures.bind fun lists hlists ↦
    Result.ensures_pure (Result.flatten_of_mapM ?_ hlists)
  exact fun node _ own hown ↦ severity_of_placedFindings hown

theorem severity_of_deadValues :
    (deadValues graph).Yields fun finding ↦ finding.severity = .info := by
  refine Result.Ensures.bind fun lists hlists ↦
    Result.ensures_pure (Result.flatten_of_mapM ?_ hlists)
  exact fun node _ own hown ↦ severity_of_placedFindings hown

/-- The findings of the checks of a graph, check by check. -/
theorem runOnGraph_eq_ok_iff :
    (standardChecks ops).runOnGraph .preCodegen graph none none = .ok found ↔
      ∃ errors repeated dead, Structure.findings ops graph = .ok errors ∧
        repeatedOutputs graph = .ok repeated ∧ deadValues graph = .ok dead ∧
        found = errors ++ repeated ++ nameFindings graph ++ dead := by
  show (Checks.collect (standardChecks ops).onGraph graph >>= fun findings ↦ .ok findings) = _ ↔ _
  simp only [Checks.collect, standardChecks, List.mapM_cons, List.mapM_nil, Result.bind_eq_ok_iff]
  constructor
  · rintro ⟨_, ⟨_, ⟨errors, herrors, _, ⟨repeated, hrepeated, _, ⟨_, hnames, _, ⟨dead, hdead, _,
      hnil, hlast⟩, hthird⟩, hsecond⟩, hfirst⟩, hflatten⟩, hfound⟩
    cases hnil
    cases hnames
    cases hlast
    cases hthird
    cases hsecond
    cases hfirst
    cases hflatten
    cases hfound
    exact ⟨errors, repeated, dead, herrors, hrepeated, hdead, by simp⟩
  · rintro ⟨errors, repeated, dead, herrors, hrepeated, hdead, rfl⟩
    exact ⟨_, ⟨_, ⟨errors, herrors, _, ⟨repeated, hrepeated, _, ⟨_, rfl, _, ⟨dead, hdead, _, rfl,
      rfl⟩, rfl⟩, rfl⟩, rfl⟩, rfl⟩, by simp⟩

/-- The checks of a graph report an error exactly when they return on a graph that does not pass for
the index of producers. -/
theorem reportsError_iff :
    graph.ReportsError ops ↔ graph.IsChecked ops ∧ ¬ graph.Passes ops graph.ListsProducer := by
  constructor
  · rintro ⟨found, hfound, finding, hfinding, herror⟩
    refine ⟨⟨found, hfound⟩, fun hpasses ↦ ?_⟩
    obtain ⟨errors, repeated, dead, herrors, hrepeated, hdead, rfl⟩ :=
      runOnGraph_eq_ok_iff.mp hfound
    obtain ⟨rfl, hforms⟩ := (Structure.passes_iff_of_findings herrors).mpr hpasses
    rw [hforms, List.nil_append, List.append_nil] at hfinding
    rcases List.mem_append.mp hfinding with hfinding | hfinding
    · rw [severity_of_repeatedOutputs repeated hrepeated finding hfinding] at herror
      cases herror
    · rw [severity_of_deadValues dead hdead finding hfinding] at herror
      cases herror
  · rintro ⟨⟨found, hfound⟩, hfails⟩
    refine ⟨found, hfound, ?_⟩
    obtain ⟨errors, repeated, dead, herrors, hrepeated, hdead, rfl⟩ :=
      runOnGraph_eq_ok_iff.mp hfound
    rw [← Structure.passes_iff_of_findings herrors, not_and_or] at hfails
    rcases hfails with hreported | hreported
    · obtain ⟨finding, hfinding⟩ := List.exists_mem_of_ne_nil errors hreported
      exact ⟨finding, by simp [hfinding], Structure.severity_of_findings errors herrors _ hfinding⟩
    · obtain ⟨finding, hfinding⟩ := List.exists_mem_of_ne_nil _ hreported
      exact ⟨finding, by simp [hfinding], severity_of_nameFindings finding hfinding⟩

end Verdict

/-! ### Graphs that are alike -/

section Sizes

theorem Attr.plain_eq_null_iff (value : Attr) : value.plain = .null ↔ value = .null := by
  cases value with
  | scalar value =>
    refine iff_of_false ?_ (by simp)
    show ¬ value.plain = .null
    unfold Scalar.plain
    split <;> simp
  | null | bool | int | real | text | list | tuple | record => simp [Attr.plain]

theorem Attr.length_plainItems (items : List Attr) : (plainItems items).length = items.length := by
  induction items with
  | nil => rfl
  | cons item rest ih => rw [plainItems, List.length_cons, List.length_cons, ih]

namespace Structure

theorem itemCount_plain (value : Attr) : itemCount value.plain = itemCount value := by
  cases value with
  | scalar value =>
    show itemCount value.plain = _
    unfold Scalar.plain
    split <;> rfl
  | list items | tuple items =>
    simp only [Attr.plain, itemCount, Attr.elements, Result.ok_bind, Attr.length_plainItems]
  | null | bool | int | real | text | record => rfl

theorem isMeasurable_plain (value : Attr) : isMeasurable value.plain = isMeasurable value := by
  cases value with
  | scalar value =>
    show isMeasurable value.plain = _
    unfold Scalar.plain
    split <;> rfl
  | null | bool | int | real | text | list | tuple | record => rfl

end Structure

theorem plain_sizes (attrs : Attrs) :
    (attrs.plain.find? "sizes").getD .null = ((attrs.find? "sizes").getD .null).plain := by
  have hfind : attrs.plain.find? "sizes" = (attrs.find? "sizes").map Attr.plain :=
    OrderedMap.find?_mapValues Attr.plain attrs "sizes"
  rw [hfind]
  cases attrs.find? "sizes" <;> rfl

end Sizes

/-- Whether two nodes differ in nothing but their identifiers and the form of their scalars. -/
structure Node.Alike (node other : Node) : Prop where
  op : other.op = node.op
  inputs : other.inputs = node.inputs
  outputs : other.outputs = node.outputs
  attrs : other.attrs.plain = node.attrs.plain

namespace Node.Alike

variable {node other : Node} (halike : node.Alike other)

include halike

theorem symm : other.Alike node :=
  ⟨halike.op.symm, halike.inputs.symm, halike.outputs.symm, halike.attrs.symm⟩

theorem plain_sizes_eq : ((other.attrs.find? "sizes").getD .null).plain =
    ((node.attrs.find? "sizes").getD .null).plain := by
  rw [← plain_sizes, halike.attrs, plain_sizes]

theorem fitsSizes (hfits : node.FitsSizes) : other.FitsSizes := by
  unfold FitsSizes at hfits ⊢
  rwa [← Attr.plain_eq_null_iff, ← Structure.itemCount_plain, halike.plain_sizes_eq,
    Attr.plain_eq_null_iff, Structure.itemCount_plain, halike.outputs]

theorem hasMeasurableSizes_eq :
    Structure.hasMeasurableSizes other = Structure.hasMeasurableSizes node := by
  unfold Structure.hasMeasurableSizes
  rw [← Structure.isMeasurable_plain, halike.plain_sizes_eq, Structure.isMeasurable_plain]

end Node.Alike

theorem exists_getElem?_of_forall₂ {α β : Type} {related : α → β → Prop} {first : List α}
    {second : List β} (hrelated : List.Forall₂ related first second) {index : Nat} {item : β}
    (hitem : second[index]? = some item) :
    ∃ other, first[index]? = some other ∧ related other item := by
  induction hrelated generalizing index with
  | nil => simp at hitem
  | cons hhead _ ih =>
    cases index with
    | zero =>
      obtain rfl := Option.some.inj hitem
      exact ⟨_, rfl, hhead⟩
    | succ index => exact ih hitem

namespace Graph

/-- Whether two graphs have the same registered names, the same roles and nodes that are alike. -/
structure Alike (graph other : Graph) : Prop where
  keys : other.tensors.keys = graph.tensors.keys
  inputs : other.inputs = graph.inputs
  outputs : other.outputs = graph.outputs
  constants : other.constants = graph.constants
  nodes : List.Forall₂ Node.Alike graph.nodes other.nodes

/-- Whether the attribute `sizes` of every node can be measured. -/
def IsMeasurable (graph : Graph) : Prop :=
  ∀ node ∈ graph.nodes, Structure.hasMeasurableSizes node = true

theorem Rebuilds.alike {graph copy : Graph} (hrebuilds : graph.Rebuilds copy) :
    graph.Alike copy where
  keys := hrebuilds.keys
  inputs := hrebuilds.inputs
  outputs := hrebuilds.outputs
  constants := hrebuilds.constants
  nodes := hrebuilds.nodes.imp fun node _ hnode ↦
    ⟨hnode.op, hnode.inputs, hnode.outputs, by rw [hnode.attrs, Attrs.plain_plain]⟩

section Alike

variable {graph other : Graph}

theorem Alike.symm (halike : graph.Alike other) : other.Alike graph where
  keys := halike.keys.symm
  inputs := halike.inputs.symm
  outputs := halike.outputs.symm
  constants := halike.constants.symm
  nodes := halike.nodes.flip.imp fun _ _ hnode ↦ Node.Alike.symm hnode

/-- Assumes: nodes that bind the same names in pairs. -/
theorem binds_of_forall₂
    (hnodes : List.Forall₂ (fun node paired : Node ↦ node.outputs = paired.outputs) graph.nodes
      other.nodes) {name : String} (hbinds : other.Binds name) : graph.Binds name := by
  obtain ⟨node, hnode, hname⟩ := hbinds
  obtain ⟨index, hindex⟩ := List.mem_iff_getElem?.mp hnode
  obtain ⟨same, hsame, hrelated⟩ := exists_getElem?_of_forall₂ hnodes hindex
  exact ⟨same, List.mem_of_getElem? hsame, hrelated ▸ hname⟩

theorem Alike.exists_node (halike : graph.Alike other) {node : Node} (hnode : node ∈ other.nodes) :
    ∃ same ∈ graph.nodes, same.Alike node := by
  obtain ⟨index, hindex⟩ := List.mem_iff_getElem?.mp hnode
  obtain ⟨same, hsame, hrelated⟩ := exists_getElem?_of_forall₂ halike.nodes hindex
  exact ⟨same, List.mem_of_getElem? hsame, hrelated⟩

theorem Alike.contains_eq (halike : graph.Alike other) (name : String) :
    other.tensors.contains name = graph.tensors.contains name := by
  rw [Bool.eq_iff_iff, OrderedMap.contains_eq_true_iff, OrderedMap.contains_eq_true_iff,
    halike.keys]

theorem Alike.binds_iff (halike : graph.Alike other) (name : String) :
    other.Binds name ↔ graph.Binds name :=
  ⟨binds_of_forall₂ (halike.nodes.imp fun _ _ h ↦ h.outputs.symm),
    binds_of_forall₂ (halike.nodes.flip.imp fun _ _ h ↦ h.outputs)⟩

theorem Alike.isMeasurable (halike : graph.Alike other) (hmeasurable : graph.IsMeasurable) :
    other.IsMeasurable := by
  intro node hnode
  obtain ⟨same, hsame, hrelated⟩ := halike.exists_node hnode
  rw [hrelated.hasMeasurableSizes_eq]
  exact hmeasurable same hsame

/-- What the checks ask for does not depend on the identifiers of nodes. -/
theorem Alike.passes (halike : graph.Alike other) {ops : List Op} {binds others : String → Prop}
    (hbinds : ∀ name, others name ↔ binds name) (hpasses : graph.Passes ops binds) :
    other.Passes ops others where
  registered := by
    intro node hnode name hname
    obtain ⟨same, hsame, hrelated⟩ := halike.exists_node hnode
    rw [hrelated.inputs, hrelated.outputs] at hname
    rw [halike.contains_eq]
    exact hpasses.registered same hsame name hname
  defined := by
    intro node hnode
    obtain ⟨same, hsame, hrelated⟩ := halike.exists_node hnode
    rw [hrelated.op]
    exact hpasses.defined same hsame
  roles := by
    rw [halike.inputs, halike.constants, halike.outputs]
    simpa only [halike.contains_eq] using hpasses.roles
  external := by
    rw [halike.inputs, halike.constants]
    simpa only [hbinds] using hpasses.external
  provided := by
    rw [halike.inputs, halike.constants, halike.outputs]
    simpa only [hbinds] using hpasses.provided
  ordered := by
    intro index node hnode name hname
    obtain ⟨same, hsame, hrelated⟩ := exists_getElem?_of_forall₂ halike.nodes hnode
    rw [hrelated.inputs] at hname
    rw [halike.inputs, halike.constants]
    refine (hpasses.ordered index same hsame name hname).imp_right (Or.imp_right ?_)
    rintro ⟨place, earlier, hlt, hearlier, hbound⟩
    obtain ⟨found, hfound, hplace⟩ := exists_getElem?_of_forall₂ halike.symm.nodes hearlier
    exact ⟨place, found, hlt, hfound, hplace.outputs ▸ hbound⟩
  sizes := by
    intro node hnode
    obtain ⟨same, hsame, hrelated⟩ := halike.exists_node hnode
    exact hrelated.fitsSizes (hpasses.sizes same hsame)
  forms := by
    rw [nameFindings, halike.keys]
    exact hpasses.forms

end Alike

/-! ### Indices in step with the nodes -/

section Indices

variable {graph : Graph} {ops : List Op}

theorem LooksUp.placedFinding_returns (hlooks : graph.LooksUp) {node : Node}
    (hnode : node ∈ graph.nodes) (check : String) (severity : Severity) (message : String) :
    (placedFinding graph check severity node message).Returns :=
  (hlooks.places node hnode).bind fun _ _ ↦ Result.returns_pure _

/-- Where the lookups return, the checks of a graph return exactly when the attribute `sizes` of
every node can be measured. -/
theorem LooksUp.isChecked_iff (hlooks : graph.LooksUp) :
    graph.IsChecked ops ↔ graph.IsMeasurable := by
  constructor
  · rintro ⟨found, hfound⟩
    obtain ⟨errors, _, _, herrors, _, _, _⟩ := runOnGraph_eq_ok_iff.mp hfound
    exact (Structure.findings_returns_iff_of_looksUp hlooks).mp ⟨errors, herrors⟩
  · intro hmeasurable
    obtain ⟨errors, herrors⟩ : (Structure.findings ops graph).Returns :=
      (Structure.findings_returns_iff_of_looksUp hlooks).mpr hmeasurable
    obtain ⟨repeated, hrepeated⟩ : (repeatedOutputs graph).Returns :=
      (Result.Returns.mapM fun _ hnode ↦ Result.Returns.mapM fun _ _ ↦
        hlooks.placedFinding_returns hnode _ _ _).bind fun _ _ ↦ Result.returns_pure _
    obtain ⟨dead, hdead⟩ : (deadValues graph).Returns :=
      (Result.Returns.mapM fun _ hnode ↦ Result.Returns.mapM fun _ _ ↦
        hlooks.placedFinding_returns hnode _ _ _).bind fun _ _ ↦ Result.returns_pure _
    exact ⟨_, runOnGraph_eq_ok_iff.mpr ⟨errors, repeated, dead, herrors, hrepeated, hdead, rfl⟩⟩

/-- Whether the index of producers lists the names that nodes bind. -/
structure Intact (graph : Graph) : Prop extends LooksUp graph where
  lists : ∀ name, graph.ListsProducer name ↔ graph.Binds name

/-- Where the index is in step, the checks report an error exactly when they return on a graph that
does not pass. -/
theorem Intact.reportsError_iff (hintact : graph.Intact) :
    graph.ReportsError ops ↔ graph.IsMeasurable ∧ ¬ graph.Passes ops graph.Binds := by
  have hself : graph.Alike graph :=
    ⟨rfl, rfl, rfl, rfl, List.forall₂_same.mpr fun _ _ ↦ ⟨rfl, rfl, rfl, rfl⟩⟩
  have hpasses : graph.Passes ops graph.ListsProducer ↔ graph.Passes ops graph.Binds :=
    ⟨hself.passes fun name ↦ (hintact.lists name).symm, hself.passes hintact.lists⟩
  rw [Handover.reportsError_iff, hintact.toLooksUp.isChecked_iff, hpasses]

theorem Consistent.intact (hconsistent : graph.Consistent) : graph.Intact where
  toLooksUp := hconsistent.looksUp
  lists := hconsistent.listsProducer_iff

/-- Whether a graph is another one with other inputs, operators and attributes of nodes, other roles
and other registered names: the indices stay, and so do the outputs of every node. -/
structure EditedFrom (graph original : Graph) : Prop where
  places : graph.places = original.places
  producerIds : graph.producerIds = original.producerIds
  nodes : List.Forall₂
    (fun node edited : Node ↦ edited.id = node.id ∧ edited.outputs = node.outputs)
    original.nodes graph.nodes

variable {original : Graph}

theorem EditedFrom.indexOf_eq (hedited : graph.EditedFrom original) (id : Int) :
    graph.indexOf id = original.indexOf id := by
  unfold indexOf
  rw [hedited.places]

/-- A graph keeps its indices in step when the outputs of its nodes stay. -/
theorem EditedFrom.intact (hedited : graph.EditedFrom original) (hbuilt : original.Built) :
    graph.Intact := by
  have hconsistent := hbuilt.consistent
  have hlists : ∀ name, graph.ListsProducer name ↔ original.ListsProducer name := fun name ↦ by
    rw [ListsProducer, hedited.producerIds, ListsProducer]
  refine ⟨⟨fun node hnode ↦ ?_, fun name _ ↦ Result.Returns.mapM fun id hid ↦ ?_⟩, fun name ↦ ?_⟩
  · obtain ⟨index, hindex⟩ := List.mem_iff_getElem?.mp hnode
    obtain ⟨same, hsame, hid, _⟩ := exists_getElem?_of_forall₂ hedited.nodes hindex
    rw [hedited.indexOf_eq, hid]
    exact ⟨index, hconsistent.indexOf hsame⟩
  · rw [hedited.producerIds, hconsistent.producerIds] at hid
    obtain ⟨node, hnode, rfl⟩ := List.mem_map.mp hid
    obtain ⟨index, hindex⟩ := List.mem_iff_getElem?.mp (List.mem_of_mem_filter hnode)
    obtain ⟨edited, hnode, _⟩ := exists_getElem?_of_forall₂ hedited.nodes.flip hindex
    unfold Graph.node
    rw [hedited.indexOf_eq, hconsistent.indexOf hindex]
    exact ⟨edited, itemAt_natCast hnode⟩
  · rw [hlists, hconsistent.listsProducer_iff]
    exact ⟨fun hbinds ↦ binds_of_forall₂ (hedited.nodes.flip.imp fun _ _ h ↦ h.2) hbinds,
      fun hbinds ↦ binds_of_forall₂ (hedited.nodes.imp fun _ _ h ↦ h.2.symm) hbinds⟩

end Indices

end Graph

/-- The verdicts on a graph and on the graph that is read from its record. The copy is judged by
what the nodes bind and the graph by what its index lists, so where the lookups return the verdicts
agree exactly if the graph passes for both or for neither. They agree on every graph that is built
and then has inputs and attributes of its nodes or its roles assigned. -/
theorem verdict_of_copy (ops : List Op) {graph copy : Graph}
    (hcopy : Graph.ofRecord graph.toRecord = .ok copy) :
    (copy.ReportsError ops ↔ graph.IsMeasurable ∧ ¬ graph.Passes ops graph.Binds) ∧
    (graph.ReportsError ops ↔ graph.IsChecked ops ∧ ¬ graph.Passes ops graph.ListsProducer) ∧
    (graph.LooksUp → ((graph.ReportsError ops ↔ copy.ReportsError ops) ↔
      (graph.IsMeasurable →
        (graph.Passes ops graph.ListsProducer ↔ graph.Passes ops graph.Binds)))) ∧
    ∀ original : Graph, original.Built → graph.EditedFrom original →
      (graph.ReportsError ops ↔ copy.ReportsError ops) := by
  have hrebuilds := Graph.rebuilds_of_ofRecord hcopy
  have halike := hrebuilds.alike
  have hverdict : copy.ReportsError ops ↔ graph.IsMeasurable ∧ ¬ graph.Passes ops graph.Binds := by
    rw [hrebuilds.built.consistent.intact.reportsError_iff]
    exact and_congr ⟨halike.symm.isMeasurable, halike.isMeasurable⟩
      (not_congr ⟨halike.symm.passes halike.symm.binds_iff, halike.passes halike.binds_iff⟩)
  refine ⟨hverdict, reportsError_iff, fun hlooks ↦ ?_, fun original hbuilt hedited ↦ ?_⟩
  · rw [reportsError_iff, hlooks.isChecked_iff, hverdict]
    by_cases hmeasurable : graph.IsMeasurable
    · simp only [hmeasurable, true_and, forall_const, not_iff_not]
    · simp only [hmeasurable, false_and, false_implies]
  · rw [(hedited.intact hbuilt).reportsError_iff, hverdict]

/-- A graph with one operation, whose result it returns. -/
def rectified : Graph :=
  (Graph.make "rectified"
    [.input "x" [.int 2] "float32", .tensor "y" [.int 2] "float32",
      .tensor "z" [.int 2] "float32", .node .relu ["x"] ["y"] {}] ["y"]).toOption.get rfl

theorem built_rectified : rectified.Built := (Graph.built_make _ _ _).get rfl

/-- The graph after its node was made to read its own output. -/
def selfReading : Graph :=
  (rectified.changeNode 0 fun node ↦ { node with inputs := ["y"] }).toOption.get rfl

/-- The early read is reported on the graph and on its copy. -/
theorem verdict_of_copy_selfReading :
    ∃ copy, Graph.ofRecord selfReading.toRecord = .ok copy ∧ rectified.Built ∧
      selfReading.EditedFrom rectified ∧ selfReading.ReportsError Op.catalog ∧
      copy.ReportsError Op.catalog := by
  have hreturns : (Graph.ofRecord selfReading.toRecord).toOption.isSome = true := by decide +kernel
  have hreported : selfReading.ReportsError Op.catalog := by decide +kernel
  have hedited : selfReading.EditedFrom rectified := ⟨rfl, rfl, .cons ⟨rfl, rfl⟩ .nil⟩
  obtain ⟨copy, hcopy⟩ := Result.returns_of_isSome hreturns
  have hagree := (verdict_of_copy Op.catalog hcopy).2.2.2 rectified built_rectified hedited
  exact ⟨copy, hcopy, built_rectified, hedited, hreported, hagree.mp hreported⟩

/-- The graph after its node was made to bind another name. -/
def stale : Graph :=
  (rectified.changeNode 0 fun node ↦ { node with outputs := ["z"] }).toOption.get rfl

/-- A graph whose index still lists the producer of an output reports no error, although its copy
does and its generation fails at the return statement. -/
theorem stale_index_unreported :
    ∃ copy, Graph.ofRecord stale.toRecord = .ok copy ∧ stale.LooksUp ∧
      copy.ReportsError Op.catalog ∧ ¬ stale.ReportsError Op.catalog ∧
      ∃ err, (generate standardSetup {} stale {}).1 = .error err ∧
        err.message? = some ("Code generation failed for graph 'rectified' at return " ++
          "(position 1): No variable with name 'y' at position 1") := by
  have hcopied : (Graph.ofRecord stale.toRecord).toOption.any
      (fun copy ↦ copy.ReportsError Op.catalog) = true := by decide +kernel
  have hunreported : ¬ stale.ReportsError Op.catalog := by decide +kernel
  have hplaces : ∀ node ∈ stale.nodes, (stale.indexOf node.id).toOption.isSome = true := by
    decide +kernel
  have hproducers : ∀ name ∈ stale.inputs ++ stale.constants ++ stale.outputs,
      (stale.producers name).toOption.isSome = true := by decide +kernel
  have hfailed : (Result.error? (generate standardSetup {} stale {}).1).bind Error.message? =
      some ("Code generation failed for graph 'rectified' at return " ++
        "(position 1): No variable with name 'y' at position 1") := by decide +kernel
  obtain ⟨copy, hcopy, hreported⟩ := (Option.any_eq_true _ _).mp hcopied
  obtain ⟨err, herr, hmessage⟩ := Option.bind_eq_some_iff.mp hfailed
  refine ⟨copy, Result.eq_ok_of_toOption_eq_some hcopy, ⟨fun node hnode ↦ ?_, fun name hname ↦ ?_⟩,
    of_decide_eq_true hreported, hunreported, err, Result.eq_error_of_error?_eq_some herr, hmessage⟩
  · exact Result.returns_of_isSome (hplaces node hnode)
  · refine Result.returns_of_isSome (hproducers name ?_)
    rwa [List.mem_append, List.mem_append, or_assoc]

end Handover
