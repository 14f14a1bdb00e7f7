import Handover.Proofs.Graph.Calls
import Handover.Proofs.Graph.Indices

/-!
# Building part by part

A building call changes a graph part by part: it checks its arguments, enters a tensor or a node,
and brings the indices up to date one after the other (`Addition.update`). What was changed before a
call fails stays changed. A call makes the graph that it is to make, or it leaves what was there
before (`Addition.update_eq`): every check stands before the first change but two, and one of these
finds its entry in every graph that is built. The other one makes the attributes of a node anew
after the identifier of the node was taken.

So the lookups of a graph answer what its sequence of nodes says after any calls, refused ones among
them, and the nodes are numbered by their places exactly if no identifier was lost
(`Graph.inStep_after`).
-/

set_option autoImplicit false
set_option relaxedAutoImplicit false

namespace Handover

namespace Graph

section Lookups

variable {graph : Graph}

/-- The lookups of a graph answer what its sequence of nodes says. -/
structure InStep (graph : Graph) : Prop where
  ids : (graph.nodes.map Node.id).Pairwise (· < ·)
  taken : ∀ node ∈ graph.nodes, node.id < graph.nextId
  node : ∀ (index : Nat) node, graph.nodes[index]? = some node →
    graph.node node.id = .ok node ∧ graph.indexOf node.id = .ok index
  producers : ∀ name,
    graph.producers name = .ok (graph.nodes.filter fun node ↦ node.outputs.contains name)
  consumers : ∀ name,
    graph.consumers name = .ok (graph.nodes.filter fun node ↦ node.inputs.contains name)
  registered : ∀ node ∈ graph.nodes, ∀ name, name ∈ node.inputs ∨ name ∈ node.outputs →
    graph.tensors.contains name = true

theorem Built.inStep (hbuilt : Built graph) : InStep graph where
  ids := hbuilt.consistent.ids
  taken := hbuilt.consistent.taken
  node _ _ hnode := ⟨hbuilt.consistent.node hnode, hbuilt.consistent.indexOf hnode⟩
  producers := hbuilt.consistent.producers
  consumers := hbuilt.consistent.consumers hbuilt.indexed
  registered := hbuilt.consistent.registered

/-- Every registered name has a list of readers. -/
theorem Built.exists_readers (hbuilt : Built graph) {name : String}
    (hname : graph.tensors.contains name = true) : name ∈ graph.consumerIds.keys := by
  have hkeys : (OrderedMap.mk (graph.tensors.keys.map fun name ↦ (name, ([] : List Nat)))).keys =
      graph.tensors.keys := by
    simp [OrderedMap.keys, Function.comp_def]
  rw [hbuilt.indexed.consumerIds, consumerIndex, keys_foldl_appendAt]
  · rw [hkeys]
    exact OrderedMap.contains_eq_true_iff.mp hname
  · intro node hnode other hother
    rw [hkeys]
    exact OrderedMap.contains_eq_true_iff.mp
      (hbuilt.consistent.registered node hnode other (.inl hother))

end Lookups

/-! ### Calls part by part -/

/-- A computation that changes a graph part by part. What it has changed when it fails stays
changed. -/
abbrev Updating (α : Type) : Type := Stateful Graph α

namespace Updating

/-- Changes a part of the graph. -/
def change (next : Graph → Graph) : Updating Unit := fun graph ↦ (.ok (), next graph)

/-- Refuses to go on. -/
def refuse {α : Type} (err : Error) : Updating α := fun graph ↦ (.error err, graph)

/-- Refuses a name that is not registered. -/
def demandRegistered (missing : String → Complaint) (name : String) : Updating Unit := fun graph ↦
  if graph.tensors.contains name then (.ok (), graph)
  else (.error (.complaint (missing name)), graph)

/-- Registers a tensor, and then the list of its readers. -/
def registerTensor (name : String) (shape : List Attr) (elementType : String) : Updating Unit := do
  if (← get).tensors.contains name then
    refuse (.complaint (.duplicateTensor name))
  change fun graph ↦
    { graph with tensors := graph.tensors.insert name { name, shape, elementType } }
  change fun graph ↦ { graph with consumerIds := graph.consumerIds.insert name [] }

/-- Puts a node at the end of the list of producers of a name, which may be the first one. -/
def enterProducer (id : Nat) (name : String) : Updating Unit :=
  change fun graph ↦ { graph with producerIds := graph.producerIds.push name id }

/-- Puts a node at the end of the list of readers of a name, which must be there. -/
def enterReader (id : Nat) (name : String) : Updating Unit := fun graph ↦
  match graph.consumerIds.find? name with
  | some ids => (.ok (), { graph with consumerIds := graph.consumerIds.insert name (ids ++ [id]) })
  | none => (.error (.noName name), graph)

/-- Refuses a node that binds nothing, and one with a name that is not registered. -/
def demandNames (op : Op) (inputs outputs : List String) : Updating Unit := do
  if outputs.isEmpty then
    refuse (.complaint (.noOutputs op))
  inputs.forM (demandRegistered .unregisteredInput)
  outputs.forM (demandRegistered .unregisteredOutput)

/-- Takes the next identifier, makes the attributes anew, enters the place of a node and the node,
and then brings the producers and the readers up to date name by name. -/
def enterNode (op : Op) (inputs outputs : List String) (attrs : Attrs) : Updating Unit := do
  demandNames op inputs outputs
  let id := (← get).nextId
  change fun graph ↦ { graph with nextId := id + 1 }
  if !attrs.areRemakable then
    refuse (.flaw .wrongKind)
  change fun graph ↦ { graph with places := graph.places.insert id graph.nodes.length }
  change fun graph ↦ { graph with
    nodes := graph.nodes ++ [{ id, op, inputs, outputs, attrs := attrs.plain }] }
  (OrderedMap.dedup outputs).forM (enterProducer id)
  inputs.forM (enterReader id)

end Updating

namespace Addition

/-- The graph that a building call leaves when it is refused. -/
def afterRefusal (graph : Graph) : Addition → Graph
  | node op inputs outputs _ => graph.afterRefusal op inputs outputs
  | _ => graph

/-- Whether a building call takes an identifier and is then refused for its attributes. -/
def losesId (graph : Graph) : Addition → Bool
  | node op inputs outputs attrs =>
    (graph.requireNames op inputs outputs).isOk && !attrs.areRemakable
  | _ => false

open Updating in
/-- A building call that changes a graph part by part. -/
def update : Addition → Updating Unit
  | tensor name shape elementType => registerTensor name shape elementType
  | input name shape elementType => do
    registerTensor name shape elementType
    change fun graph ↦ { graph with inputs := graph.inputs ++ [name] }
  | constant name data => do
    let shape := data.tensor.shape.map fun length : Nat ↦ Attr.int length
    let elementType := data.typeName
    registerTensor name shape elementType
    change fun graph ↦ { graph with
      tensors := graph.tensors.insert name { name, shape, elementType, buffer := some data } }
    change fun graph ↦ { graph with constants := graph.constants ++ [name] }
  | node op inputs outputs attrs => enterNode op inputs outputs attrs

end Addition

/-- What a call leaves that makes a graph, or another one if it is refused. -/
def outcome (refused : Graph) : Result Graph → Except Error Unit × Graph
  | .ok next => (.ok (), next)
  | .error err => (.error err, refused)

/-- The graph that building calls leave, each of which may be refused. -/
def after (start : Graph) (additions : List Addition) : Graph :=
  additions.foldl (fun graph addition ↦ (addition.update graph).2) start

/-- The number of identifiers that some building calls lose, one after the other. -/
def lostIds (graph : Graph) : List Addition → Nat
  | [] => 0
  | addition :: rest =>
    lostIds (addition.update graph).2 rest + if addition.losesId graph then 1 else 0

section Calls

variable {graph : Graph}

theorem registerTensor_run (name : String) (shape : List Attr) (elementType : String) :
    Updating.registerTensor name shape elementType graph =
      graph.outcome (graph.addTensor name shape elementType) := by
  show (if graph.tensors.contains name then Updating.refuse _ >>= fun _ ↦ _
    else _ : Updating Unit) graph = _
  unfold addTensor
  split_ifs <;> rfl

/-- Names are checked one by one up to the first that is not registered. -/
theorem forM_demandRegistered (missing : String → Complaint) (names : List String) :
    names.forM (Updating.demandRegistered missing) graph =
      match names.find? fun name ↦ !graph.tensors.contains name with
      | some name => (.error (.complaint (missing name)), graph)
      | none => (.ok (), graph) := by
  induction names with
  | nil => rfl
  | cons name rest ih =>
    rw [List.forM_eq_forM, List.forM_cons, Stateful.run_bind, Updating.demandRegistered,
      List.find?_cons]
    cases graph.tensors.contains name with
    | false => rfl
    | true => exact ih

theorem demandNames_run (op : Op) (inputs outputs : List String) :
    Updating.demandNames op inputs outputs graph =
      (graph.requireNames op inputs outputs, graph) := by
  unfold requireNames
  show (if outputs.isEmpty then Updating.refuse _ >>= fun _ ↦ _ else _ : Updating Unit) graph = _
  split_ifs with hnone
  · rfl
  show (inputs.forM (Updating.demandRegistered .unregisteredInput) >>= fun _ ↦
    outputs.forM (Updating.demandRegistered .unregisteredOutput)) graph = _
  rw [Stateful.run_bind, forM_demandRegistered]
  cases inputs.find? fun name ↦ !graph.tensors.contains name with
  | some missing => rfl
  | none =>
    dsimp only
    rw [forM_demandRegistered]
    cases outputs.find? fun name ↦ !graph.tensors.contains name <;> rfl

theorem forM_enterProducer (id : Nat) (names : List String) :
    names.forM (Updating.enterProducer id) graph =
      (.ok (), { graph with producerIds := appendAt id names graph.producerIds }) := by
  induction names generalizing graph with
  | nil => rfl
  | cons name rest ih =>
    rw [List.forM_eq_forM, List.forM_cons, Stateful.run_bind]
    exact ih

/-- The readers of names that have lists of readers are brought up to date. -/
theorem forM_enterReader (id : Nat) {names : List String}
    (hnames : ∀ name ∈ names, name ∈ graph.consumerIds.keys) :
    names.forM (Updating.enterReader id) graph =
      (.ok (), { graph with consumerIds := appendAt id names graph.consumerIds }) := by
  induction names generalizing graph with
  | nil => rfl
  | cons name rest ih =>
    obtain ⟨hname, hrest⟩ := List.forall_mem_cons.mp hnames
    obtain ⟨ids, hids⟩ : ∃ ids, graph.consumerIds.find? name = some ids := by
      rwa [← Option.isSome_iff_exists, ← OrderedMap.contains_eq_isSome,
        OrderedMap.contains_eq_true_iff]
    have hkept := OrderedMap.keys_insert_of_mem hname (ids ++ [id])
    rw [List.forM_eq_forM, List.forM_cons, Stateful.run_bind, Updating.enterReader, hids]
    refine (ih fun other hother ↦ ?_).trans ?_
    · rw [hkept]
      exact hrest other hother
    · simp only [appendAt, List.foldl_cons, OrderedMap.push, hids, Option.getD_some]

/-- A node is entered as it is appended. -/
theorem enterNode_run (hbuilt : Built graph) (op : Op) (inputs outputs : List String)
    (attrs : Attrs) :
    Updating.enterNode op inputs outputs attrs graph =
      (graph.afterRefusal op inputs outputs).outcome (graph.addNode op inputs outputs attrs) := by
  show (Updating.demandNames op inputs outputs >>= fun _ ↦ _) graph = _
  rw [Stateful.run_bind, demandNames_run]
  unfold addNode afterRefusal
  cases hnames : graph.requireNames op inputs outputs with
  | error err => rfl
  | ok =>
    dsimp only
    cases hattrs : attrs.areRemakable with
    | false => rfl
    | true =>
      have hreaders : ∀ name ∈ inputs, name ∈ graph.consumerIds.keys := fun name hname ↦
        hbuilt.exists_readers ((requireNames_eq_ok_iff.mp hnames).2 name (.inl hname))
      show ((OrderedMap.dedup outputs).forM (Updating.enterProducer graph.nextId) >>= fun _ ↦
        inputs.forM (Updating.enterReader graph.nextId)) _ = _
      rw [Stateful.run_bind, forM_enterProducer]
      exact forM_enterReader graph.nextId hreaders

/-- A building call makes the graph that it is to make, or leaves what a refused call leaves. -/
theorem Addition.update_eq (hbuilt : Built graph) (addition : Addition) :
    addition.update graph = (addition.afterRefusal graph).outcome (addition.apply graph) := by
  cases addition with
  | tensor name shape elementType => exact registerTensor_run name shape elementType
  | input name shape elementType =>
    show (Updating.registerTensor name shape elementType >>= fun _ ↦ _) graph = _
    rw [Stateful.run_bind, registerTensor_run, Addition.apply, addInput]
    cases graph.addTensor name shape elementType <;> rfl
  | constant name data =>
    show (Updating.registerTensor name _ _ >>= fun _ ↦ _) graph = _
    rw [Stateful.run_bind, registerTensor_run, Addition.apply, addConstant]
    cases graph.addTensor name _ _ <;> rfl
  | node op inputs outputs attrs => exact enterNode_run hbuilt op inputs outputs attrs

/-- A call that is refused changes nothing, or it loses an identifier. -/
theorem Addition.afterRefusal_eq {addition : Addition} {err : Error}
    (hrefused : addition.apply graph = .error err) :
    addition.afterRefusal graph =
      if addition.losesId graph then { graph with nextId := graph.nextId + 1 } else graph := by
  cases addition with
  | tensor | input | constant => rfl
  | node op inputs outputs attrs =>
    rw [Addition.apply, addNode] at hrefused
    rw [Addition.afterRefusal, Graph.afterRefusal, Addition.losesId]
    cases hnames : graph.requireNames op inputs outputs with
    | error other => rfl
    | ok =>
      rw [hnames, Result.ok_bind] at hrefused
      cases hattrs : attrs.areRemakable with
      | false => rfl
      | true =>
        rw [if_pos hattrs] at hrefused
        cases hrefused

/-- A call leaves a graph that is built. -/
theorem Addition.built_update (hbuilt : Built graph) (addition : Addition) :
    Built (addition.update graph).2 := by
  rw [Addition.update_eq hbuilt]
  cases hnext : addition.apply graph with
  | ok next => exact Addition.built_apply hbuilt addition next hnext
  | error err =>
    cases addition with
    | tensor | input | constant => exact hbuilt
    | node => exact .refuseNode hbuilt hnext

theorem Built.after (hbuilt : Built graph) (additions : List Addition) :
    Built (graph.after additions) := by
  induction additions generalizing graph with
  | nil => exact hbuilt
  | cons addition rest ih => exact ih (Addition.built_update hbuilt addition)

/-- A call that makes a graph loses no identifier, and it takes one for each node. -/
theorem Addition.nextId_apply {addition : Addition} {next : Graph}
    (hnext : addition.apply graph = .ok next) :
    addition.losesId graph = false ∧
      next.nextId + graph.nodes.length = graph.nextId + next.nodes.length := by
  cases addition with
  | tensor name shape elementType =>
    obtain rfl := addTensor_eq_ok hnext
    exact ⟨rfl, rfl⟩
  | input | constant =>
    obtain ⟨extended, hextended, hnext⟩ := Result.bind_eq_ok_iff.mp hnext
    obtain rfl := Except.ok.inj hnext
    obtain rfl := addTensor_eq_ok hextended
    exact ⟨rfl, rfl⟩
  | node op inputs outputs attrs =>
    obtain ⟨-, hattrs, rfl⟩ := addNode_eq_ok_iff.mp hnext
    refine ⟨by rw [losesId, hattrs, Bool.not_true, Bool.and_false], ?_⟩
    show graph.nextId + 1 + graph.nodes.length = graph.nextId + (graph.nodes ++ [_]).length
    rw [List.length_append, List.length_singleton]
    omega

/-- A call takes an identifier for a node or loses it. -/
theorem Addition.nextId_update (hbuilt : Built graph) (addition : Addition) :
    (addition.update graph).2.nextId + graph.nodes.length =
      graph.nextId + (addition.update graph).2.nodes.length +
        if addition.losesId graph then 1 else 0 := by
  rw [Addition.update_eq hbuilt]
  cases hnext : addition.apply graph with
  | ok next =>
    obtain ⟨hloses, hcount⟩ := Addition.nextId_apply hnext
    rw [hloses]
    exact hcount
  | error err =>
    show (addition.afterRefusal graph).nextId + _ =
      _ + (addition.afterRefusal graph).nodes.length + _
    rw [Addition.afterRefusal_eq hnext]
    split_ifs
    · exact Nat.add_right_comm ..
    · rfl

/-- What calls take but for nodes they lose. -/
theorem nextId_after (hbuilt : Built graph) (additions : List Addition) :
    (graph.after additions).nextId + graph.nodes.length =
      graph.nextId + (graph.after additions).nodes.length + graph.lostIds additions := by
  induction additions generalizing graph with
  | nil => rfl
  | cons addition rest ih =>
    have hfirst := Addition.nextId_update hbuilt addition
    have hrest := ih (Addition.built_update hbuilt addition)
    show ((addition.update graph).2.after rest).nextId + _ =
      _ + ((addition.update graph).2.after rest).nodes.length + (lostIds _ rest + _)
    omega

/-- After any building calls, refused ones among them, the lookups of a graph answer what its
sequence of nodes says. One more call makes the graph that it is to make or is refused, and then it
changes nothing but the next identifier, which it loses exactly if the names of a node are accepted
and its attributes are not. So the nodes are numbered by their places, and the next identifier is
their number, exactly if no call lost one. Assumes: calls that begin with an empty graph or with the
graph of a record. -/
theorem inStep_after {start : Graph}
    (hstart : (∃ name, start = { name := name }) ∨ ∃ record, ofRecord record = .ok start)
    (additions : List Addition) :
    let graph := start.after additions
    graph.InStep ∧
    graph.nextId = graph.nodes.length + start.lostIds additions ∧
    (graph.Numbered ↔ start.lostIds additions = 0) ∧
    ∀ addition : Addition,
      (∀ next, addition.apply graph = .ok next → addition.update graph = (.ok (), next)) ∧
      ∀ err, addition.apply graph = .error err → addition.update graph =
        (.error err,
          if addition.losesId graph then { graph with nextId := graph.nextId + 1 } else graph) := by
  have hbuilt : Built start := by
    rcases hstart with ⟨name, rfl⟩ | ⟨record, hrecord⟩
    · exact .empty name
    · exact built_of_ofRecord record start hrecord
  have hnumbered : start.nextId = start.nodes.length := by
    rcases hstart with ⟨name, rfl⟩ | ⟨record, hrecord⟩
    · rfl
    · exact nextId_of_ofRecord record start hrecord
  have hafter := hbuilt.after additions
  have hcount : (start.after additions).nextId =
      (start.after additions).nodes.length + start.lostIds additions := by
    have := nextId_after hbuilt additions
    omega
  refine ⟨hafter.inStep, hcount, ⟨fun hplaces ↦ ?_, fun hnone ↦ ?_⟩, fun addition ↦ ⟨?_, ?_⟩⟩
  · have := hplaces.nextId
    omega
  · exact hafter.consistent.numbered (by rw [hcount, hnone, Nat.add_zero])
  · intro next hnext
    rw [addition.update_eq hafter, hnext]
    rfl
  · intro err hrefused
    rw [addition.update_eq hafter, hrefused, Addition.afterRefusal_eq hrefused]
    rfl

/-- Calls of which three are refused: a tensor is registered again, a node reads a name that is not
registered, and a node binds nothing. -/
def interruptedAdditions : List Addition :=
  [.input "x" [.int 2] "float32", .constant "x" (Tensor.tabulate .int64 [2] fun _ ↦ 0),
    .tensor "y" [.int 2] "float32", .node .add ["x", "x"] ["y", "y"] {},
    .node .mul ["y", "z"] ["y"] {}, .node .relu ["y"] [] {}, .node .relu ["y"] ["y"] {}]

/-- The refused calls leave no trace in the identifiers and in the lists of producers and readers.
-/
theorem inStep_after_interrupted :
    let graph := ({ name := "interrupted" } : Graph).after interruptedAdditions
    graph.InStep ∧ graph.Numbered ∧ graph.nodes.map Node.id = [0, 1] ∧ graph.constants = [] ∧
      (graph.producers "y").toOption.map (List.map Node.id) = some [0, 1] ∧
      (graph.consumers "x").toOption.map (List.map Node.id) = some [0] := by
  obtain ⟨hinStep, -, hnumbered, -⟩ :=
    inStep_after (.inl ⟨"interrupted", rfl⟩) interruptedAdditions
  exact ⟨hinStep, hnumbered.mpr (by decide +kernel), by decide +kernel, by decide +kernel,
    by decide +kernel, by decide +kernel⟩

/-- The class of pairs of two items with names. -/
def pairClass : TupleClass where
  name := "Pair"
  fields := ["first", "second"]
  name_usable := by decide +kernel
  fields_usable := by decide +kernel
  two_le_length := by decide

/-- Calls that append a node after one that is refused for its attributes. -/
def losingAdditions : List Addition :=
  [.input "x" [.int 2] "float32", .tensor "y" [.int 2] "float32",
    .node .relu ["x"] ["y"] ⟨[("sides", .tuple [.int 1, .int 2] (some pairClass))]⟩,
    .node .relu ["x"] ["y"] {}]

/-- A call that is refused for its attributes changes the next identifier, and the node after it is
not numbered by its place. -/
theorem identifier_lost :
    let refused := ({ name := "losing" } : Graph).after (losingAdditions.take 3)
    let graph := ({ name := "losing" } : Graph).after losingAdditions
    (({ name := "losing" } : Graph).after (losingAdditions.take 2)).nextId = 0 ∧
      refused.nodes.length = 0 ∧ refused.nextId = 1 ∧
      graph.nodes.map Node.id = [1] ∧ (graph.indexOf 1).toOption = some 0 ∧
      (graph.indexOf 0).toOption = none := by
  decide +kernel

end Calls

end Graph

end Handover
