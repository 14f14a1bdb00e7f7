import Handover.Check.Names
import Handover.Proofs.Check.Structure
import Handover.Proofs.Graph.Building

/-!
# What the checks ask for

The structure check is exact: where it returns, it reports nothing exactly if the graph has what the
check asks for, part by part (`registrations_eq_nil_iff` and the others). What is asked of the names
that nodes bind is asked of the index of producers, which need not be in step with the nodes
(`Graph.ListsProducer`), while everything else is read off the nodes, the registered names and the
roles. `Graph.Passes` says all of it for any notion of what nodes bind (`passes_iff_of_findings`).
In a graph that is built the index lists what the nodes bind (`Consistent.listsProducer_iff`).
-/

set_option autoImplicit false
set_option relaxedAutoImplicit false

namespace Handover

/-! ### Findings of lists -/

section Lists

variable {α : Type}

theorem eq_nil_iff_of_mapM {β : Type} {items : List α} {call : α → Result β} {values : List β}
    (hvalues : items.mapM call = .ok values) : values = [] ↔ items = [] := by
  rw [← List.length_eq_zero_iff, ← List.length_eq_zero_iff,
    (Result.mapM_eq_ok_iff.mp hvalues).length_eq]

/-- Findings of items are missing when those of each item are. -/
theorem flatten_eq_nil_iff_of_mapM {items : List α} {call : α → Result (List Finding)}
    {condition : α → Prop} {found : List (List Finding)} (hfound : items.mapM call = .ok found)
    (hcall : ∀ item ∈ items, ∀ own, call item = .ok own → (own = [] ↔ condition item)) :
    found.flatten = [] ↔ ∀ item ∈ items, condition item := by
  rw [List.flatten_eq_nil_iff]
  constructor
  · intro hnone item hitem
    obtain ⟨own, hown, hresult⟩ := Result.exists_result_of_mem hfound hitem
    exact (hcall item hitem own hresult).mp (hnone own hown)
  · intro hall own hown
    obtain ⟨item, hitem, hresult⟩ := Result.exists_of_mem_of_mapM hfound hown
    exact (hcall item hitem own hresult).mpr (hall item hitem)

theorem findingsFor_eq_nil_iff {items : List α} {condition : α → Bool} {report : α → Result Finding}
    {found : List Finding} (hfound : Structure.findingsFor items condition report = .ok found) :
    found = [] ↔ ∀ item ∈ items, condition item = false := by
  rw [eq_nil_iff_of_mapM hfound, List.filter_eq_nil_iff]
  simp

end Lists

/-! ### What is asked for -/

/-- Whether a node has one output for each of the sizes that it lists, if it lists any. -/
def Node.FitsSizes (node : Node) : Prop :=
  (node.attrs.find? "sizes").getD .null = .null ∨
    Structure.itemCount ((node.attrs.find? "sizes").getD .null) = .ok node.outputs.length

namespace Graph

/-- Whether the index of producers has a node for a name. -/
def ListsProducer (graph : Graph) (name : String) : Prop :=
  (graph.producerIds.find? name).getD [] ≠ []

/-- Whether a node binds a name. -/
def Binds (graph : Graph) (name : String) : Prop := ∃ node ∈ graph.nodes, name ∈ node.outputs

theorem Consistent.listsProducer_iff {graph : Graph} (hconsistent : graph.Consistent)
    (name : String) : graph.ListsProducer name ↔ graph.Binds name := by
  rw [ListsProducer, hconsistent.producerIds, ne_eq, List.map_eq_nil_iff, List.filter_eq_nil_iff]
  simp only [List.contains_iff_mem, not_forall, not_not, Binds, exists_prop]

/-- Whether a graph has what its checks ask for, with a notion of which names nodes bind. -/
structure Passes (graph : Graph) (ops : List Op) (binds : String → Prop) : Prop where
  registered : ∀ node ∈ graph.nodes, ∀ name, name ∈ node.inputs ∨ name ∈ node.outputs →
    graph.tensors.contains name = true
  defined : ∀ node ∈ graph.nodes, node.op ∈ ops
  roles : ∀ name, name ∈ graph.inputs ∨ name ∈ graph.constants ∨ name ∈ graph.outputs →
    graph.tensors.contains name = true
  external : ∀ name, name ∈ graph.inputs ∨ name ∈ graph.constants → ¬ binds name
  provided : ∀ name ∈ graph.outputs, name ∉ graph.constants ∧ (binds name ∨ name ∈ graph.inputs)
  ordered : ∀ (index : Nat) node, graph.nodes[index]? = some node → ∀ name ∈ node.inputs,
    name ∈ graph.inputs ∨ name ∈ graph.constants ∨
      ∃ place earlier, place < index ∧ graph.nodes[place]? = some earlier ∧ name ∈ earlier.outputs
  sizes : ∀ node ∈ graph.nodes, node.FitsSizes
  forms : nameFindings graph = []

end Graph

namespace Structure

variable {ops : List Op} {graph : Graph} {node : Node} {found : List Finding}

/-! ### Parts of the structure check -/

theorem registrations_eq_nil_iff (hfound : registrations ops graph node = .ok found) :
    found = [] ↔ (∀ name, name ∈ node.inputs ∨ name ∈ node.outputs →
      graph.tensors.contains name = true) ∧ node.op ∈ ops := by
  obtain ⟨inputs, hinputs, hfound⟩ := Result.bind_eq_ok_iff.mp hfound
  obtain ⟨outputs, houtputs, hfound⟩ := Result.bind_eq_ok_iff.mp hfound
  obtain ⟨definitions, hdefinitions, hfound⟩ := Result.bind_eq_ok_iff.mp hfound
  obtain rfl := Except.ok.inj hfound
  rw [List.append_eq_nil_iff, List.append_eq_nil_iff, findingsFor_eq_nil_iff hinputs,
    findingsFor_eq_nil_iff houtputs, findingsFor_eq_nil_iff hdefinitions]
  simp only [Bool.not_eq_false', List.mem_singleton, forall_eq, List.contains_iff_mem, or_imp,
    forall_and]

theorem unregisteredRoles_eq_nil_iff {role : String} {names : List String} :
    unregisteredRoles graph role names = [] ↔
      ∀ name ∈ names, graph.tensors.contains name = true := by
  rw [unregisteredRoles, List.map_eq_nil_iff, List.filter_eq_nil_iff]
  simp

theorem producers_eq_nil_iff {name : String} {producers : List Node}
    (hproducers : graph.producers name = .ok producers) :
    producers = [] ↔ ¬ graph.ListsProducer name := by
  rw [eq_nil_iff_of_mapM hproducers, Graph.ListsProducer, not_not]

theorem boundRoles_eq_nil_iff {role : String} {names : List String}
    (hfound : boundRoles graph role names = .ok found) :
    found = [] ↔ ∀ name ∈ names, ¬ graph.ListsProducer name := by
  obtain ⟨lists, hlists, hfound⟩ := Result.bind_eq_ok_iff.mp hfound
  obtain rfl := Except.ok.inj hfound
  refine flatten_eq_nil_iff_of_mapM hlists fun name _ own hown ↦ ?_
  obtain ⟨producers, hproducers, hown⟩ := Result.bind_eq_ok_iff.mp hown
  rw [← producers_eq_nil_iff hproducers]
  cases producers with
  | nil =>
    obtain rfl := Except.ok.inj hown
    exact iff_of_true rfl rfl
  | cons producer rest =>
    obtain ⟨finding, _, hown⟩ := Result.bind_eq_ok_iff.mp hown
    obtain rfl := Except.ok.inj hown
    exact iff_of_false (List.cons_ne_nil _ _) (List.cons_ne_nil _ _)

theorem outputRoles_eq_nil_iff (hfound : outputRoles graph = .ok found) :
    found = [] ↔ ∀ name ∈ graph.outputs, name ∉ graph.constants ∧
      (graph.ListsProducer name ∨ name ∈ graph.inputs) := by
  obtain ⟨lists, hlists, hfound⟩ := Result.bind_eq_ok_iff.mp hfound
  obtain rfl := Except.ok.inj hfound
  refine flatten_eq_nil_iff_of_mapM hlists fun name _ own hown ↦ ?_
  split_ifs at hown with hconstant
  · obtain rfl := Except.ok.inj hown
    exact iff_of_false (List.cons_ne_nil _ _) fun h ↦ h.1 (List.contains_iff_mem.mp hconstant)
  · rw [List.contains_iff_mem] at hconstant
    obtain ⟨producers, hproducers, hown⟩ := Result.bind_eq_ok_iff.mp hown
    have hlisted := producers_eq_nil_iff hproducers
    rw [and_iff_right hconstant]
    split_ifs at hown with hmissing
    · obtain rfl := Except.ok.inj hown
      rw [Bool.and_eq_true, List.isEmpty_iff, hlisted, Bool.not_eq_true', ← Bool.not_eq_true,
        List.contains_iff_mem] at hmissing
      exact iff_of_false (List.cons_ne_nil _ _) fun h ↦ h.elim hmissing.1 hmissing.2
    · obtain rfl := Except.ok.inj hown
      rw [Bool.and_eq_true, List.isEmpty_iff, hlisted, Bool.not_eq_true', ← Bool.not_eq_true,
        List.contains_iff_mem, not_and_or, not_not, not_not] at hmissing
      exact iff_of_true rfl hmissing

theorem splitArity_eq_nil_iff (hfound : splitArity graph node = .ok found) :
    found = [] ↔ node.FitsSizes := by
  unfold splitArity at hfound
  unfold Node.FitsSizes
  generalize (node.attrs.find? "sizes").getD .null = sizes at hfound ⊢
  split at hfound
  · obtain rfl := Except.ok.inj hfound
    exact iff_of_true rfl (.inl rfl)
  · next hsome =>
    obtain ⟨count, hcount, hfound⟩ := Result.bind_eq_ok_iff.mp hfound
    rw [hcount, or_iff_right hsome]
    split_ifs at hfound with hequal
    · obtain rfl := Except.ok.inj hfound
      exact iff_of_true rfl (congrArg _ hequal)
    · obtain ⟨finding, _, hfound⟩ := Result.bind_eq_ok_iff.mp hfound
      obtain rfl := Except.ok.inj hfound
      exact iff_of_false (List.cons_ne_nil _ _) fun h ↦ hequal (Except.ok.inj h)

/-- Nothing is read early when every registered name that a node reads is defined from the start or
bound by a node before. -/
theorem earlyReads_eq_nil_iff {defined : List String} {nodes : List Node}
    (hfound : earlyReads graph defined nodes = .ok found) :
    found = [] ↔ ∀ (index : Nat) node, nodes[index]? = some node → ∀ name ∈ node.inputs,
      graph.tensors.contains name = true → name ∈ defined ∨
        ∃ place earlier, place < index ∧ nodes[place]? = some earlier ∧ name ∈ earlier.outputs := by
  induction nodes generalizing defined found with
  | nil =>
    obtain rfl := Except.ok.inj hfound
    simp
  | cons head rest ih =>
    obtain ⟨own, hown, hfound⟩ := Result.bind_eq_ok_iff.mp hfound
    obtain ⟨later, hlater, hfound⟩ := Result.bind_eq_ok_iff.mp hfound
    obtain rfl := Except.ok.inj hfound
    rw [List.append_eq_nil_iff, findingsFor_eq_nil_iff hown, ih hlater]
    constructor
    · rintro ⟨hhead, hrest⟩ index node hnode name hname hregistered
      cases index with
      | zero =>
        obtain rfl := Option.some.inj hnode
        have hearly := hhead name hname
        rw [hregistered, Bool.true_and, Bool.not_eq_false', List.contains_iff_mem] at hearly
        exact .inl hearly
      | succ index =>
        rcases hrest index node hnode name hname hregistered with hmem | ⟨place, earlier, hlt, h⟩
        · rcases List.mem_append.mp hmem with hmem | hmem
          · exact .inl hmem
          · exact .inr ⟨0, head, index.succ_pos, rfl, hmem⟩
        · exact .inr ⟨place + 1, earlier, Nat.succ_lt_succ hlt, h⟩
    · intro hall
      refine ⟨fun name hname ↦ ?_, fun index node hnode name hname hregistered ↦ ?_⟩
      · rw [Bool.and_eq_false_iff, Bool.not_eq_false', List.contains_iff_mem]
        cases hregistered : graph.tensors.contains name with
        | false => exact .inl rfl
        | true =>
          rcases hall 0 head rfl name hname hregistered with hmem | ⟨_, _, hlt, _⟩
          · exact .inr hmem
          · exact absurd hlt (Nat.not_lt_zero _)
      · rw [List.mem_append]
        rcases hall (index + 1) node hnode name hname hregistered with
          hmem | ⟨place, earlier, hlt, hearlier, hbinds⟩
        · exact .inl (.inl hmem)
        · cases place with
          | zero =>
            obtain rfl := Option.some.inj hearlier
            exact .inl (.inr hbinds)
          | succ place =>
            exact .inr ⟨place, earlier, Nat.lt_of_succ_lt_succ hlt, hearlier, hbinds⟩

/-- The structure check and the check of identifier forms report nothing exactly on a graph that
passes for the index of producers. Assumes: a structure check that returns. -/
theorem passes_iff_of_findings (hfound : findings ops graph = .ok found) :
    found = [] ∧ nameFindings graph = [] ↔ graph.Passes ops graph.ListsProducer := by
  obtain ⟨registered, boundInputs, boundConstants, outputs, reads, arities, hregistered, hinputs,
    hconstants, houtputs, hreads, harities, rfl⟩ := findings_eq_ok_iff.mp hfound
  simp only [List.append_eq_nil_iff, unregisteredRoles_eq_nil_iff]
  rw [flatten_eq_nil_iff_of_mapM hregistered fun node _ own ↦ registrations_eq_nil_iff,
    boundRoles_eq_nil_iff hinputs, boundRoles_eq_nil_iff hconstants,
    outputRoles_eq_nil_iff houtputs, earlyReads_eq_nil_iff hreads,
    flatten_eq_nil_iff_of_mapM harities fun node _ own ↦ splitArity_eq_nil_iff]
  constructor
  · rintro ⟨⟨⟨⟨⟨⟨⟨hnodes, ⟨hroleInputs, hroleConstants⟩, hroleOutputs⟩, hbound⟩, hconstant⟩,
      hprovided⟩, hordered⟩, hsizes⟩, hforms⟩
    refine ⟨fun node hnode ↦ (hnodes node hnode).1, fun node hnode ↦ (hnodes node hnode).2,
      fun name hname ↦ ?_, fun name hname ↦ ?_, hprovided, fun index node hnode name hname ↦ ?_,
      hsizes, hforms⟩
    · exact hname.elim (hroleInputs name) fun hname ↦
        hname.elim (hroleConstants name) (hroleOutputs name)
    · exact hname.elim (hbound name) (hconstant name)
    · have hregistered := (hnodes node (List.mem_of_getElem? hnode)).1 name (.inl hname)
      have hdefined := hordered index node hnode name hname hregistered
      rwa [List.mem_append, or_assoc] at hdefined
  · intro hpasses
    refine ⟨⟨⟨⟨⟨⟨⟨fun node hnode ↦ ⟨hpasses.registered node hnode, hpasses.defined node hnode⟩,
      ⟨fun name hname ↦ hpasses.roles name (.inl hname),
        fun name hname ↦ hpasses.roles name (.inr (.inl hname))⟩,
      fun name hname ↦ hpasses.roles name (.inr (.inr hname))⟩,
      fun name hname ↦ hpasses.external name (.inl hname)⟩,
      fun name hname ↦ hpasses.external name (.inr hname)⟩, hpasses.provided⟩,
      fun index node hnode name hname _ ↦ ?_⟩, hpasses.sizes⟩, hpasses.forms⟩
    rw [List.mem_append, or_assoc]
    exact hpasses.ordered index node hnode name hname

/-! ### Graphs of which nothing is reported -/

/-- A graph of which the structure check reports nothing: its roles are registered, no node binds an
input or a constant, and its outputs are provided for. -/
structure Clean (graph : Graph) : Prop where
  registeredInputs : unregisteredRoles graph "input" graph.inputs = []
  registeredConstants : unregisteredRoles graph "constant" graph.constants = []
  registeredOutputs : unregisteredRoles graph "output" graph.outputs = []
  boundInputs : boundRoles graph "input" graph.inputs = .ok []
  boundConstants : boundRoles graph "constant" graph.constants = .ok []
  outputs : outputRoles graph = .ok []

theorem clean_of_findings (hfindings : findings ops graph = .ok []) : Clean graph := by
  obtain ⟨_, boundInputs, boundConstants, outputs, _, _, _, hinputs, hconstants, houtputs, _, _,
    hnil⟩ := findings_eq_ok_iff.mp hfindings
  have hparts := hnil.symm
  simp only [List.append_eq_nil_iff] at hparts
  obtain ⟨⟨⟨⟨⟨⟨_, ⟨hroleInputs, hroleConstants⟩, hroleOutputs⟩, rfl⟩, rfl⟩, rfl⟩, _⟩, _⟩ := hparts
  exact ⟨hroleInputs, hroleConstants, hroleOutputs, hinputs, hconstants, houtputs⟩

theorem arities_of_findings (hfindings : findings ops graph = .ok []) :
    ∀ node ∈ graph.nodes, splitArity graph node = .ok [] := by
  obtain ⟨_, _, _, _, _, arities, _, _, _, _, _, harities, hnil⟩ := findings_eq_ok_iff.mp hfindings
  have hempty := (List.append_eq_nil_iff.mp hnil.symm).2
  intro node hnode
  obtain ⟨own, hown, hnode⟩ := Result.exists_result_of_mem harities hnode
  rw [hnode, List.flatten_eq_nil_iff.mp hempty own hown]

/-- Every name of a node is registered. -/
theorem registered_of_findings (hfindings : findings ops graph = .ok []) :
    ∀ node ∈ graph.nodes, ∀ name, name ∈ node.inputs ∨ name ∈ node.outputs →
      graph.tensors.contains name = true := by
  obtain ⟨registered, _, _, _, _, _, hregistered, _, _, _, _, _, hnil⟩ :=
    findings_eq_ok_iff.mp hfindings
  have hparts := hnil.symm
  simp only [List.append_eq_nil_iff] at hparts
  obtain ⟨⟨⟨⟨⟨⟨hempty, _⟩, _⟩, _⟩, _⟩, _⟩, _⟩ := hparts
  have hnodes := (flatten_eq_nil_iff_of_mapM hregistered
    fun node _ own ↦ registrations_eq_nil_iff).mp hempty
  exact fun node hnode ↦ (hnodes node hnode).1

/-- A node that lists sizes has one output for each of them. -/
theorem itemCount_of_splitArity (harity : splitArity graph node = .ok []) {sizes : Attr}
    (hsizes : node.attrs.find? "sizes" = some sizes) (hsome : sizes ≠ .null) :
    itemCount sizes = .ok node.outputs.length := by
  have hfits := (splitArity_eq_nil_iff harity).mp rfl
  rw [Node.FitsSizes, hsizes, Option.getD_some] at hfits
  exact hfits.resolve_left hsome

/-- Every name of a clean graph that has a role is registered. -/
theorem Clean.registered (hclean : Clean graph) :
    ∀ name, name ∈ graph.inputs ∨ name ∈ graph.constants ∨ name ∈ graph.outputs →
      graph.tensors.contains name = true := by
  rintro name (hname | hname | hname)
  · exact unregisteredRoles_eq_nil_iff.mp hclean.registeredInputs name hname
  · exact unregisteredRoles_eq_nil_iff.mp hclean.registeredConstants name hname
  · exact unregisteredRoles_eq_nil_iff.mp hclean.registeredOutputs name hname

/-- No output of a clean graph is a constant. -/
theorem Clean.not_constant (hclean : Clean graph) :
    ∀ name ∈ graph.outputs, graph.constants.contains name = false := by
  intro name hname
  have hprovided := (outputRoles_eq_nil_iff hclean.outputs).mp rfl name hname
  rw [← Bool.not_eq_true, List.contains_iff_mem]
  exact hprovided.1

end Structure

end Handover
