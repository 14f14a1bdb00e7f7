import Handover.Proofs.Check.Accepted
import Handover.Proofs.Check.DeadValues
import Handover.Proofs.Check.Prediction

/-!
# Unused values

The ledger counts the uses of every value, and the check of dead values looks at names. On a graph
that passes its checks the check reports an output of a node exactly when no value of the name has a
registered use (`dead_values_by_name`): a use of the name belongs to one of its values, and the uses
of a ledger are those that the graph registers. So a value that is reported has no use, and the
check is exact for a name that one node binds. Where a name is bound again, a value that is never
used goes unreported when another one of the name is used (`overwritten_value_unreported`).
-/

set_option autoImplicit false
set_option relaxedAutoImplicit false

namespace Handover

/-! ### Uses of a name -/

namespace Ledger

variable {ledger : Ledger} {uses : List Use} {ident : String}

/-- A generation has no pending use when none that the ledger owes resolves to it. -/
theorem Owes.pending_eq_zero_iff (howes : ledger.Owes uses) {generation : Generation}
    (hmem : generation ∈ ledger.generationsOf ident) :
    generation.pending = 0 ↔
      ∀ use ∈ uses, use.ident = ident → ledger.origin use ≠ some generation.position := by
  have hpending := howes.pending ident generation.position
  rw [pendingAt, pendingIn_of_mem (howes.ordered ident) hmem] at hpending
  rw [hpending, List.countP_eq_zero]
  simp only [decide_eq_true_eq, not_and, ne_eq]

/-- No generation of an identifier has a pending use when the ledger owes no use of it. -/
theorem Owes.forall_pending_eq_zero_iff (howes : ledger.Owes uses) :
    (∀ generation ∈ ledger.generationsOf ident, generation.pending = 0) ↔
      ¬ ∃ use ∈ uses, use.ident = ident := by
  constructor
  · rintro hnone ⟨use, huse, rfl⟩
    obtain ⟨place, horigin⟩ := howes.reachable use huse
    obtain ⟨generation, _, rfl, hmem⟩ := exists_visible_of_origin horigin
    exact (howes.pending_eq_zero_iff hmem).mp (hnone generation hmem) use huse rfl horigin
  · intro hnone generation hmem
    exact (howes.pending_eq_zero_iff hmem).mpr fun use huse hident ↦
      absurd ⟨use, huse, hident⟩ hnone

/-- Assumes: generations in the order of their positions. -/
theorem Ordered.origin_of_mem (hordered : ledger.Ordered) {generation : Generation}
    (hmem : generation ∈ ledger.generationsOf ident) :
    ledger.origin ⟨ident, generation.position⟩ = some generation.position :=
  hordered.origin_eq_some_iff.mpr
    ⟨⟨List.mem_map_of_mem hmem, le_refl _⟩, fun _ hplace ↦ hplace.2⟩

end Ledger

section Uses

variable {graph : Graph}

theorem mem_readsAt_iff {position : Int} {names : List String} {use : Use} :
    use ∈ graph.readsAt position names ↔
      ∃ name ∈ names, graph.isConstant name = false ∧ use = ⟨sanitize name, position⟩ := by
  simp only [Graph.readsAt, Graph.variableNames, List.mem_map, List.mem_filter, Bool.not_eq_true']
  constructor
  · rintro ⟨name, ⟨hname, hvariable⟩, rfl⟩
    exact ⟨name, hname, hvariable, rfl⟩
  · rintro ⟨name, hname, hvariable, rfl⟩
    exact ⟨name, ⟨hname, hvariable⟩, rfl⟩

theorem mem_reads_iff {use : Use} :
    use ∈ graph.reads ↔
      (∃ (index : Nat) (node : Node), graph.nodes[index]? = some node ∧
        use ∈ graph.readsAt index node.inputs) ∨
      use ∈ graph.readsAt graph.nodes.length graph.outputs := by
  unfold Graph.reads
  rw [List.mem_append, List.mem_flatMap]
  refine or_congr_left ?_
  constructor
  · rintro ⟨⟨node, index⟩, hentry, huse⟩
    exact ⟨index, node, List.mem_zipIdx_iff_getElem?.mp hentry, huse⟩
  · rintro ⟨index, node, hnode, huse⟩
    exact ⟨(node, index), List.mem_zipIdx_iff_getElem?.mpr hnode, huse⟩

/-- A graph registers a use of an output of a node when some node reads the name or the graph
returns it. -/
theorem Graph.Accepted.exists_use_iff (haccepted : graph.Accepted) {node : Node}
    (hnode : node ∈ graph.nodes) {name : String} (hname : name ∈ node.outputs) :
    (∃ use ∈ graph.reads ++ graph.holds, use.ident = sanitize name) ↔ ¬ graph.IsUnused name := by
  have hregistered := haccepted.nodes node hnode name (.inr hname)
  obtain ⟨hinput, hconstant⟩ := haccepted.external node hnode name hname
  have hvariable : graph.isConstant name = false := by simpa [Graph.isConstant] using hconstant
  constructor
  · rintro ⟨use, huse, hident⟩ ⟨hunread, hunreturned⟩
    rcases List.mem_append.mp huse with huse | huse
    · rcases mem_reads_iff.mp huse with ⟨index, reader, hreader, huse⟩ | huse
      · obtain ⟨other, hother, _, rfl⟩ := mem_readsAt_iff.mp huse
        have hreader := List.mem_of_getElem? hreader
        have hsame := haccepted.forms other name
          (haccepted.nodes reader hreader other (.inl hother)) hregistered hident
        exact hunread reader hreader (hsame ▸ hother)
      · obtain ⟨other, hother, _, rfl⟩ := mem_readsAt_iff.mp huse
        have hsame := haccepted.forms other name
          (haccepted.roles other (.inr (.inr hother))) hregistered hident
        exact hunreturned (hsame ▸ hother)
    · obtain ⟨other, hother, rfl⟩ := List.mem_map.mp huse
      have hsame := haccepted.forms other name
        (haccepted.roles other (.inl hother)) hregistered hident
      exact hinput (hsame ▸ hother)
  · intro hused
    rw [Graph.IsUnused, not_and_or] at hused
    rcases hused with hread | hreturned
    · simp only [not_forall, not_not] at hread
      obtain ⟨reader, hreader, hread⟩ := hread
      obtain ⟨index, hindex⟩ := List.mem_iff_getElem?.mp hreader
      exact ⟨⟨sanitize name, index⟩, List.mem_append_left _ (mem_reads_iff.mpr (.inl
        ⟨index, reader, hindex, mem_readsAt_iff.mpr ⟨name, hread, hvariable, rfl⟩⟩)), rfl⟩
    · exact ⟨⟨sanitize name, graph.nodes.length⟩, List.mem_append_left _ (mem_reads_iff.mpr (.inr
        (mem_readsAt_iff.mpr ⟨name, not_not.mp hreturned, hvariable, rfl⟩))), rfl⟩

end Uses

/-! ### Graphs that pass their checks -/

section Accepted

variable {graph : Graph} {ops : List Op}

theorem distinctForms_of_accepted (haccepted : graph.Accepted) : graph.DistinctForms := by
  have hregistered : ∀ name ∈ graph.allNames, graph.tensors.contains name = true := by
    intro name hname
    simp only [Graph.allNames, List.mem_append, List.mem_flatMap] at hname
    rcases hname with (((hkey | hinput) | houtput) | hconstant) | ⟨node, hnode, hname⟩
    · exact OrderedMap.contains_eq_true_iff.mpr hkey
    · exact haccepted.roles name (.inl hinput)
    · exact haccepted.roles name (.inr (.inr houtput))
    · exact haccepted.roles name (.inr (.inl hconstant))
    · exact haccepted.nodes node hnode name hname
  exact fun name hname other hother ↦
    haccepted.forms name other (hregistered name hname) (hregistered other hother)

/-- Every use of a graph that passes its checks resolves to a generation. -/
theorem firstUnresolved?_of_findings (hbuilt : graph.Built) (haccepted : graph.Accepted)
    (hfindings : Structure.findings ops graph = .ok []) : graph.firstUnresolved? = none := by
  have hreturned := (Structure.clean_of_findings hfindings).not_constant
  obtain ⟨before, reads, after, hnil, _, _, hreads⟩ :=
    Structure.findings_split hbuilt.consistent hreturned hfindings
  simp only [List.nil_eq, List.append_eq_nil_iff, List.map_eq_nil_iff] at hnil
  obtain ⟨⟨⟨_, hunprovided⟩, rfl⟩, _⟩ := hnil
  rw [firstUnresolved?_eq (distinctForms_of_accepted haccepted), hunprovided,
    List.forall₂_nil_right_iff.mp hreads]
  rfl

/-- The generations of an output of a node stand one past the indices of the nodes that bind it. -/
theorem exists_binder_of_generation (haccepted : graph.Accepted) {ledger : Ledger}
    (hordered : ledger.Ordered) (horigin : ∀ use, ledger.origin use = graph.origin use)
    {node : Node} (hnode : node ∈ graph.nodes) {name : String} (hname : name ∈ node.outputs)
    {generation : Generation} (hmem : generation ∈ ledger.generationsOf (sanitize name)) :
    ∃ (index : Nat) (binder : Node), graph.nodes[index]? = some binder ∧ name ∈ binder.outputs ∧
      generation.position = index + 1 := by
  have hregistered := haccepted.nodes node hnode name (.inr hname)
  have hproduced := hordered.origin_of_mem hmem
  rw [horigin, Graph.origin_eq_some_iff] at hproduced
  rcases Graph.mem_producedAt_iff.mp hproduced.1.1 with
    ⟨_, other, hinput, hident⟩ | ⟨index, binder, hbinder, hident, hposition⟩
  · have hsame := haccepted.forms other name
      (haccepted.roles other (.inl hinput)) hregistered hident
    exact absurd (hsame ▸ hinput) (haccepted.external node hnode name hname).1
  · obtain ⟨other, hother, hident⟩ := List.mem_map.mp hident
    have hsame := haccepted.forms other name
      (haccepted.nodes binder (List.mem_of_getElem? hbinder) other (.inr hother)) hregistered hident
    exact ⟨index, binder, hbinder, hsame ▸ hother, hposition⟩

end Accepted

/-- The check of dead values reports an output of a node exactly when no generation of the name has
a registered use. So it agrees with the ledger on a value exactly if that value has a use or no
value of the name has one, and always on a name that one node binds. Assumes: a graph that is built
and passes the standard checks. -/
theorem dead_values_by_name {ops : List Op} {graph : Graph} (hbuilt : graph.Built)
    {severity : Severity} {graphName : Option String} {findings : List Finding}
    (hpassed : (standardChecks ops).runOnGraph .preCodegen graph (some severity) graphName =
      .ok findings) (log : Option (List Ledger.Event)) :
    ∃ found ledger, deadValues graph = .ok found ∧
      buildLedger graph (.fresh log) = (.ok (), ledger) ∧
      ∀ (index : Nat) (node : Node), graph.nodes[index]? = some node → ∀ name ∈ node.outputs,
        (node.isReportedDead found name = true ↔
          ∀ generation ∈ ledger.generationsOf (sanitize name), generation.pending = 0) ∧
        ∃ generation ∈ ledger.generationsOf (sanitize name), generation.position = index + 1 ∧
          ((node.isReportedDead found name = true ↔ generation.pending = 0) ↔
            (generation.pending = 0 →
              ∀ other ∈ ledger.generationsOf (sanitize name), other.pending = 0)) ∧
          ((∀ (place : Nat) (other : Node), graph.nodes[place]? = some other →
              name ∈ other.outputs → place = index) →
            (node.isReportedDead found name = true ↔ generation.pending = 0)) := by
  have hfindings := findings_of_runOnGraph (List.mem_cons_self ..) hpassed
  have haccepted := accepted_of_runOnGraph hbuilt (List.Subset.refl _) hpassed
  obtain ⟨found, hfound, hreported⟩ := hbuilt.consistent.exists_deadValues
  obtain ⟨ledger, hledger, _, horigin, howes⟩ :=
    buildLedger_eq_ok log (firstUnresolved?_of_findings hbuilt haccepted hfindings)
  rw [returnedConstants_eq_nil (Structure.clean_of_findings hfindings).not_constant,
    List.append_nil] at howes
  refine ⟨found, ledger, hfound, hledger, fun index node hindex name hname ↦ ?_⟩
  have hnode := List.mem_of_getElem? hindex
  have hall : node.isReportedDead found name = true ↔
      ∀ generation ∈ ledger.generationsOf (sanitize name), generation.pending = 0 := by
    rw [hreported node hnode, howes.forall_pending_eq_zero_iff,
      haccepted.exists_use_iff hnode hname, not_not]
    exact and_iff_right hname
  have hproduced : (index : Int) + 1 ∈ graph.producedAt (sanitize name) :=
    Graph.succ_mem_producedAt_iff.mpr ⟨node, hindex, List.mem_map_of_mem hname⟩
  obtain ⟨generation, _, hposition, hmem⟩ :=
    Ledger.exists_visible_of_origin ((horigin _).trans (Graph.origin_of_mem hproduced))
  refine ⟨hall, generation, hmem, hposition, ?_, fun honly ↦ ?_⟩
  · rw [hall]
    exact ⟨fun hagrees ↦ hagrees.mpr, fun hothers ↦ ⟨fun hnone ↦ hnone generation hmem, hothers⟩⟩
  · rw [hall]
    refine ⟨fun hnone ↦ hnone generation hmem, fun hnone other hother ↦ ?_⟩
    obtain ⟨place, binder, hbinder, hbinds, hplace⟩ :=
      exists_binder_of_generation haccepted howes.ordered horigin hnode hname hother
    have hsame : other = generation := by
      refine eq_of_position_eq (howes.ordered (sanitize name)) hother hmem ?_
      rw [hplace, hposition, honly place binder hbinder hbinds]
    rw [hsame]
    exact hnone

/-- A graph that binds a name, binds it again before anything reads it, and binds another name that
nothing reads. -/
def overwritten : Graph :=
  (Graph.make "overwritten"
    [.input "x" [.int 2] "float32", .tensor "y" [.int 2] "float32",
      .tensor "z" [.int 2] "float32", .node .relu ["x"] ["y"] {}, .node .neg ["x"] ["y"] {},
      .node .exp ["x"] ["z"] {}] ["y"]).toOption.get rfl

theorem built_overwritten : overwritten.Built := (Graph.built_make _ _ _).get rfl

/-- The value of the last node is reported, and it has no use. -/
theorem dead_values_by_name_overwritten :
    ∃ found ledger node, deadValues overwritten = .ok found ∧
      buildLedger overwritten (.fresh none) = (.ok (), ledger) ∧
      overwritten.nodes[2]? = some node ∧ node.isReportedDead found "z" = true ∧
      ∀ generation ∈ ledger.generationsOf (sanitize "z"), generation.pending = 0 := by
  have hpassed : ((standardChecks Op.catalog).runOnGraph .preCodegen overwritten (some .warning)
      none).toOption.isSome = true := by decide +kernel
  have hreported : ((deadValues overwritten).toOption.bind fun found ↦ overwritten.nodes[2]?.map
      fun node ↦ (node.outputs, node.isReportedDead found "z")) = some (["z"], true) := by
    decide +kernel
  obtain ⟨findings, hfindings⟩ := Result.returns_of_isSome hpassed
  obtain ⟨found, ledger, hfound, hledger, hagree⟩ :=
    dead_values_by_name built_overwritten hfindings none
  obtain ⟨reported, hcheck, hnodes⟩ := Option.bind_eq_some_iff.mp hreported
  obtain rfl := Except.ok.inj ((Result.eq_ok_of_toOption_eq_some hcheck).symm.trans hfound)
  obtain ⟨node, hnode, hvalues⟩ := Option.map_eq_some_iff.mp hnodes
  obtain ⟨houtputs, hdead⟩ := Prod.mk.inj hvalues
  have hname : "z" ∈ node.outputs := by
    rw [houtputs]
    exact List.mem_singleton_self _
  exact ⟨reported, ledger, node, hfound, hledger, hnode, hdead,
    (hagree 2 node hnode "z" hname).1.mp hdead⟩

/-- The value of the first node has no use, and it is not reported. -/
theorem overwritten_value_unreported :
    overwritten.Built ∧
      ((standardChecks Op.catalog).runOnGraph .preCodegen overwritten (some .error)
        none).Returns ∧
      ∃ found ledger node, deadValues overwritten = .ok found ∧
        buildLedger overwritten (.fresh none) = (.ok (), ledger) ∧
        overwritten.nodes[0]? = some node ∧ "y" ∈ node.outputs ∧
        ledger.generationsOf (sanitize "y") = [⟨1, 0⟩, ⟨2, 1⟩] ∧
        node.isReportedDead found "y" = false := by
  have hpassed : ((standardChecks Op.catalog).runOnGraph .preCodegen overwritten (some .error)
      none).toOption.isSome = true := by decide +kernel
  have hsilent : ((deadValues overwritten).toOption.bind fun found ↦ overwritten.nodes[0]?.map
      fun node ↦ (node.outputs, node.isReportedDead found "y")) = some (["y"], false) := by
    decide +kernel
  have hreturns : (buildLedger overwritten (.fresh none)).1.toOption = some () := by
    decide +kernel
  have hgenerations : (buildLedger overwritten (.fresh none)).2.generationsOf (sanitize "y") =
      [⟨1, 0⟩, ⟨2, 1⟩] := by decide +kernel
  obtain ⟨found, hfound, hnodes⟩ := Option.bind_eq_some_iff.mp hsilent
  obtain ⟨node, hnode, hvalues⟩ := Option.map_eq_some_iff.mp hnodes
  obtain ⟨houtputs, hdead⟩ := Prod.mk.inj hvalues
  obtain ⟨ledger, hledger⟩ :=
    Stateful.exists_state_of_fst (Result.eq_ok_of_toOption_eq_some hreturns)
  rw [hledger] at hgenerations
  have hname : "y" ∈ node.outputs := by
    rw [houtputs]
    exact List.mem_singleton_self _
  exact ⟨built_overwritten, Result.returns_of_isSome hpassed, found, ledger, node,
    Result.eq_ok_of_toOption_eq_some hfound, hledger, hnode, hname, hgenerations, hdead⟩

end Handover
