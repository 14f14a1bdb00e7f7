import Handover.Proofs.Generation.ReachingDefinitions
import Handover.Proofs.Generation.LastUse
import Handover.Proofs.Program.Tally
import Mathlib.Data.List.Dedup

/-!
# Statistics

What the statistics of a generated module count (`stats_exact`). A use is counted for every read of
a variable, and it is a move when it is the last one of a generation that no caller holds, so the
moves are the generations that nodes produce and something reads (`countP_isMove_decisions`,
`Graph.countP_isMove_reads`). Only the first slot of a node and the returned slots are owned, so the
copies are those of nodes that own a first input which is a constant or still needed
(`Graph.copiesFirstInput`), and those of returned values that are still needed. The counters that
are kept while a body is written come out the same (`tallyBody_eq_ok`).
-/

set_option autoImplicit false
set_option relaxedAutoImplicit false

namespace Handover

/-! ### Moves -/

section Moves

/-- The generation that a use resolves to, if there is one, under its identifier. -/
def Use.generation (origin : Use → Option Int) (use : Use) : String × Option Int :=
  (use.ident, origin use)

variable {origin : Use → Option Int}

theorem shares_iff_generation_eq {first second : Use} :
    Use.Shares origin first second ↔ first.generation origin = second.generation origin :=
  Prod.mk_inj.symm

theorem exists_shares_iff {uses : List Use} {use : Use} :
    (∃ other ∈ uses, Use.Shares origin other use) ↔
      use.generation origin ∈ uses.map (Use.generation origin) := by
  simp only [shares_iff_generation_eq, List.mem_map]

/-- Among some uses before later ones, as many hand their value over as there are generations that
some of them resolve to and no later use does: each such generation has one last use. -/
theorem countP_isMove_decisions (later uses : List Use) :
    (Use.decisions origin later uses).countP Decision.isMove =
      (uses.map (Use.generation origin)).dedup.countP
        fun generation ↦ generation ∉ later.map (Use.generation origin) := by
  induction uses with
  | nil => rfl
  | cons use rest ih =>
    have hmove : (use.decision origin (rest ++ later)).isMove = true ↔
        use.generation origin ∉ rest.map (Use.generation origin) ∧
          use.generation origin ∉ later.map (Use.generation origin) := by
      rw [isMove_decision_iff, exists_shares_iff, List.map_append, List.mem_append, not_or]
    rw [Use.decisions, List.countP_cons, ih, List.map_cons]
    by_cases hrest : use.generation origin ∈ rest.map (Use.generation origin)
    · rw [List.dedup_cons_of_mem hrest, if_neg fun h ↦ (hmove.mp h).1 hrest, Nat.add_zero]
    · rw [List.dedup_cons_of_notMem hrest, List.countP_cons]
      congr 1
      simp only [hmove, hrest, not_false_eq_true, true_and, decide_eq_true_eq]

end Moves

namespace Graph

variable (graph : Graph)

/-- The generations that the nodes of a graph produce, each once: an identifier that a node binds,
at the position one past the index of the node. -/
def nodeGenerations : List (String × Int) :=
  graph.nodes.zipIdx.flatMap fun entry ↦
    (entry.1.outputs.map sanitize).dedup.map fun ident ↦ (ident, (entry.2 : Int) + 1)

variable {graph}

theorem mem_nodeGenerations_iff {ident : String} {position : Int} :
    (ident, position) ∈ graph.nodeGenerations ↔
      position ∈ graph.producedAt ident ∧ 1 ≤ position := by
  rw [mem_producedAt_iff, nodeGenerations, List.mem_flatMap]
  constructor
  · rintro ⟨⟨node, index⟩, hentry, hgeneration⟩
    obtain ⟨_, hident, heq⟩ := List.mem_map.mp hgeneration
    obtain ⟨rfl, rfl⟩ := Prod.mk_inj.mp heq
    exact ⟨.inr ⟨index, node, List.mem_zipIdx_iff_getElem?.mp hentry, List.mem_dedup.mp hident,
      rfl⟩, by omega⟩
  · rintro ⟨⟨rfl, _⟩ | ⟨index, node, hnode, hident, rfl⟩, hpositive⟩
    · omega
    · exact ⟨(node, index), List.mem_zipIdx_iff_getElem?.mpr hnode,
        List.mem_map_of_mem (List.mem_dedup.mpr hident)⟩

/-- No generation is listed twice: those of one node have distinct identifiers, and those of
different nodes stand at different positions. -/
theorem nodup_nodeGenerations : graph.nodeGenerations.Nodup := by
  rw [nodeGenerations, List.nodup_flatMap]
  refine ⟨fun entry _ ↦ (List.nodup_dedup _).map fun _ _ heq ↦ (Prod.mk_inj.mp heq).1, ?_⟩
  have hindices : (graph.nodes.zipIdx.map Prod.snd).Nodup := by
    rw [List.zipIdx_map_snd]
    exact List.nodup_range'
  refine (List.pairwise_map.mp hindices).imp fun {first second} hne ↦ ?_
  rintro generation hfirst hsecond
  obtain ⟨_, _, rfl⟩ := List.mem_map.mp hfirst
  obtain ⟨_, _, heq⟩ := List.mem_map.mp hsecond
  have hposition := (Prod.mk_inj.mp heq).2
  exact hne (by omega)

/-- As many reads of a graph hand their value over as there are generations that its nodes produce
and some read resolves to. Assumes: every use of the graph resolves. -/
theorem countP_isMove_reads (hresolved : graph.firstUnresolved? = none) :
    (Use.decisions graph.origin graph.holds graph.reads).countP Decision.isMove =
      graph.nodeGenerations.countP fun generation ↦
        ∃ read ∈ graph.reads,
          read.ident = generation.1 ∧ graph.origin read = some generation.2 := by
  rw [countP_isMove_decisions, List.countP_eq_length_filter, List.countP_eq_length_filter,
    ← List.length_map fun generation : String × Int ↦ (generation.1, some generation.2)]
  refine List.Perm.length_eq ((List.perm_ext_iff_of_nodup ?_ ?_).mpr ?_)
  · exact (List.nodup_dedup _).filter _
  · refine (nodup_nodeGenerations.filter _).map ?_
    rintro ⟨_, _⟩ ⟨_, _⟩ heq
    simpa using heq
  · intro generation
    simp only [List.mem_filter, List.mem_dedup, List.mem_map, decide_eq_true_eq]
    constructor
    · rintro ⟨⟨read, hread, rfl⟩, hheld⟩
      obtain ⟨position, horigin⟩ := exists_origin_of_resolved hresolved
        ((usesOf_buildCalls_perm graph).mem_iff.mpr (List.mem_append_left _ hread))
      have hproduced := (origin_eq_some_iff.mp horigin).1.1
      have hnode : position ≠ 0 := fun hzero ↦ hheld
        (List.mem_map.mp (exists_shares_iff.mp ((exists_hold_shares_iff horigin).mpr hzero)))
      refine ⟨(read.ident, position), ⟨mem_nodeGenerations_iff.mpr ⟨hproduced, ?_⟩, read, hread,
        rfl, horigin⟩, Prod.ext rfl horigin.symm⟩
      exact (eq_zero_or_pos_of_mem_producedAt hproduced).resolve_left hnode
    · rintro ⟨⟨ident, position⟩, ⟨hnode, read, hread, rfl, horigin⟩, rfl⟩
      refine ⟨⟨read, hread, Prod.ext rfl horigin⟩, fun hheld ↦ ?_⟩
      have hhold :
          read.generation graph.origin ∈ graph.holds.map (Use.generation graph.origin) := by
        rw [show read.generation graph.origin = (read.ident, some position) from
          Prod.ext rfl horigin]
        exact List.mem_map.mpr hheld
      have hzero := (exists_hold_shares_iff horigin).mp (exists_shares_iff.mpr hhold)
      have hpositive := (mem_nodeGenerations_iff.mp hnode).2
      omega

/-! ### Copies -/

variable (graph)

/-- Whether a node owns its first input, for given operators. -/
def ownsFirst (ops : List Op) (node : Node) : Bool :=
  match ownsFirstInput ops graph node with
  | .ok owned => owned
  | .error _ => false

/-- The number of variables that the nodes before an index read, which is the index of the first
decision for the node there. -/
def readCount (index : Nat) : Nat :=
  ((graph.nodes.take index).flatMap fun node ↦ graph.variableNames node.inputs).length

/-- Whether the node at an index owns its first input and copies it, under given decisions for the
reads of a graph: the input is a constant, or the decision for it keeps the value. -/
def copiesFirstInput (ops : List Op) (decisions : List Decision) (node : Node) (index : Nat) :
    Bool :=
  match node.inputs with
  | [] => false
  | first :: _ =>
    graph.ownsFirst ops node && (graph.isConstant first ||
      decisions[graph.readCount index]?.any fun decision ↦ decision.ownership == .duplicate)

end Graph

theorem ownership_beq_duplicate (decision : Decision) :
    (decision.ownership == .duplicate) = !decision.isMove := by
  unfold Decision.isMove
  cases decision.ownership <;> rfl

section Written

variable {ops : List Op} {graph : Graph} {style : ReferenceStyle} {later : List Use}
  {position : Int}

/-- Whether a written reference is a copy: it is owned, and is a constant or keeps its value. -/
theorem WrittenReference.isClone_eq {name : String} {owned : Bool} {reference : Reference}
    (hwritten : WrittenReference graph style position name owned later reference) :
    reference.isClone = (owned && (graph.isConstant name ||
      reference.decision.any fun decision ↦ decision.ownership == .duplicate)) := by
  unfold WrittenReference at hwritten
  cases hname : graph.isConstant name with
  | true =>
    rw [hname, if_pos rfl] at hwritten
    obtain ⟨_, rfl, hdecision⟩ := constantReference_eq_ok hwritten
    simp [Reference.isClone, Reference.isMove, hdecision]
  | false =>
    rw [hname, if_neg Bool.false_ne_true] at hwritten
    obtain ⟨_, rfl, hdecision⟩ := variableReference_eq_ok hwritten
    simp [Reference.isClone, Reference.isMove, hdecision, ownership_beq_duplicate]

theorem WrittenReference.exists_decision {name : String} {owned : Bool} {reference : Reference}
    (hwritten : WrittenReference graph style position name owned later reference)
    (hvariable : graph.isConstant name = false) :
    ∃ decision, reference.decision = some decision := by
  rw [WrittenReference, hvariable, if_neg Bool.false_ne_true] at hwritten
  exact ⟨_, (variableReference_eq_ok hwritten).2.2⟩

/-- A borrowed slot is never a copy. -/
theorem countP_isClone_of_borrowed {slots : List (String × Bool)} {references : List Reference}
    (hwritten : WrittenReferences graph style position slots later references)
    (hborrowed : ∀ slot ∈ slots, slot.2 = false) : references.countP Reference.isClone = 0 := by
  rw [List.countP_eq_zero]
  intro reference hreference
  obtain ⟨slot, hslot, _, hmade⟩ := Sequenced.exists_of_mem hwritten hreference
  rw [hmade.isClone_eq, hborrowed slot hslot, Bool.false_and]
  exact Bool.false_ne_true

theorem WrittenStatement.ownsFirst_eq {node : Node} {index : Nat} {statement : Statement}
    (hwritten : WrittenStatement ops graph style node index later statement) :
    graph.ownsFirst ops node = statement.owned := by
  rw [Graph.ownsFirst, hwritten.owned]

/-- A statement has at most one copy, that of its first input. The decision for a first input which
is a variable is the first one of the statement. Assumes: a list of decisions that has those of the
statement where the reads of its node stand. -/
theorem WrittenStatement.countP_isClone {node : Node} {index : Nat} {statement : Statement}
    (hwritten : WrittenStatement ops graph style node index later statement)
    {before after : List Decision} (hcount : before.length = graph.readCount index) :
    statement.references.countP Reference.isClone = (graph.copiesFirstInput ops
      (before ++ (statement.references.filterMap Reference.decision ++ after)) node
      index).toNat := by
  have hreferences := hwritten.references
  rw [Graph.copiesFirstInput, hwritten.ownsFirst_eq, List.getElem?_append_right (le_of_eq hcount),
    hcount, Nat.sub_self]
  rw [Node.slots] at hreferences
  generalize statement.references = references at hreferences
  cases hinputs : node.inputs with
  | nil =>
    rw [hinputs] at hreferences
    change Sequenced _ _ later [] references at hreferences
    cases hreferences
    rfl
  | cons first rest =>
    rw [hinputs, List.zipIdx_cons, List.map_cons] at hreferences
    cases hreferences with
    | @cons _ _ reference others hreference hothers =>
      have hborrowed : others.countP Reference.isClone = 0 := by
        refine countP_isClone_of_borrowed hothers fun slot hslot ↦ ?_
        obtain ⟨⟨name, place⟩, hplace, rfl⟩ := List.mem_map.mp hslot
        have hlater := List.le_snd_of_mem_zipIdx hplace
        simp only [Bool.and_eq_false_imp, beq_eq_false_iff_ne]
        omega
      have hclone : reference.isClone = (statement.owned && (graph.isConstant first ||
          reference.decision.any fun decision ↦ decision.ownership == .duplicate)) := by
        simpa using hreference.isClone_eq
      rw [List.countP_cons, hborrowed, Nat.zero_add, hclone]
      dsimp only
      cases hfirst : graph.isConstant first with
      | true => cases statement.owned <;> rfl
      | false =>
        obtain ⟨decision, hdecision⟩ := hreference.exists_decision hfirst
        rw [List.filterMap_cons_some hdecision, hdecision]
        rcases decision with ⟨ownership, _, _⟩
        cases statement.owned <;> cases ownership <;> rfl

/-- The decisions for a node are as many as the variables that it reads. -/
theorem WrittenStatement.length_decisions {node : Node} {index : Nat} {statement : Statement}
    (hwritten : WrittenStatement ops graph style node index later statement) :
    (statement.references.filterMap Reference.decision).length =
      (graph.variableNames node.inputs).length := by
  rw [hwritten.references.decisions_eq, flatMap_slots, ← List.length_map Decision.use,
    map_use_decisions, Graph.readsAt, List.length_map]

/-- What is read off the statements of a body, when it is determined by the nodes. -/
theorem WrittenBody.map_eq {body : Body} (hwritten : WrittenBody ops graph style later body)
    {γ : Type} {made : Statement → γ} {read : Node → γ}
    (hmade : ∀ node index after statement,
      WrittenStatement ops graph style node index after statement → made statement = read node) :
    body.statements.map made = graph.nodes.map read := by
  rw [Sequenced.map_eq (fun entry after statement ↦ hmade entry.1 entry.2 after statement)
    hwritten.statements]
  conv_rhs => rw [← List.zipIdx_map_fst 0 graph.nodes, List.map_map]
  rfl

/-- The decisions for the nodes before an index are as many as their reads. -/
theorem WrittenBody.length_decisions_take {body : Body}
    (hwritten : WrittenBody ops graph style later body) (index : Nat) :
    ((body.statements.take index).flatMap fun statement ↦
      statement.references.filterMap Reference.decision).length = graph.readCount index := by
  have hlengths := hwritten.map_eq (fun _ _ _ _ hstatement ↦ hstatement.length_decisions)
  rw [List.length_flatMap, Graph.readCount, List.length_flatMap, List.map_take, List.map_take,
    hlengths]

/-- The decisions of the statement at an index stand at the number of reads before it. -/
theorem WrittenBody.split_decisions {body : Body}
    (hwritten : WrittenBody ops graph style later body) {index : Nat} {statement : Statement}
    (hstatement : body.statements[index]? = some statement) :
    ∃ before after, body.decisions =
        before ++ (statement.references.filterMap Reference.decision ++ after) ∧
      before.length = graph.readCount index := by
  obtain ⟨hindex, rfl⟩ := List.getElem?_eq_some_iff.mp hstatement
  refine ⟨_, (body.statements.drop (index + 1)).flatMap (fun statement ↦
    statement.references.filterMap Reference.decision) ++
      body.returned.filterMap Reference.decision, ?_, hwritten.length_decisions_take index⟩
  rw [Body.decisions, Body.references, List.filterMap_append, List.filterMap_flatMap]
  conv_lhs => rw [← List.take_append_drop index body.statements, List.drop_eq_getElem_cons hindex]
  rw [List.flatMap_append, List.flatMap_cons, List.append_assoc, List.append_assoc]

/-- The statement at an index of a written body is that of the node there. -/
theorem WrittenBody.exists_node {body : Body} (hwritten : WrittenBody ops graph style later body)
    {index : Nat} {statement : Statement} (hstatement : body.statements[index]? = some statement) :
    ∃ node after, graph.nodes[index]? = some node ∧
      WrittenStatement ops graph style node index after statement := by
  obtain ⟨entry, after, hentry, hmade⟩ := hwritten.statements.exists_of_getElem? hstatement
  rw [List.getElem?_zipIdx, Option.map_eq_some_iff] at hentry
  obtain ⟨node, hnode, rfl⟩ := hentry
  rw [Nat.zero_add] at hmade
  exact ⟨node, after, hnode, hmade⟩

/-- The copies in the statements of a body are those of the nodes that own and copy their first
input. -/
theorem WrittenBody.countP_isClone {body : Body}
    (hwritten : WrittenBody ops graph style later body) :
    (body.statements.flatMap Statement.references).countP Reference.isClone =
      graph.nodes.zipIdx.countP fun entry ↦
        graph.copiesFirstInput ops body.decisions entry.1 entry.2 := by
  rw [List.countP_flatMap, ← sum_map_toNat]
  congr 1
  refine List.ext_getElem? fun index ↦ ?_
  rw [List.getElem?_map, List.getElem?_map]
  cases hstatement : body.statements[index]? with
  | none =>
    have hlength := List.getElem?_eq_none_iff.mp hstatement
    rw [← List.length_map Statement.node, hwritten.map_node] at hlength
    rw [List.getElem?_eq_none (by simpa using hlength)]
    rfl
  | some statement =>
    obtain ⟨node, after, hnode, hmade⟩ := hwritten.exists_node hstatement
    obtain ⟨_, _, hsplit, hcount⟩ := hwritten.split_decisions hstatement
    rw [List.getElem?_zipIdx, hnode, hsplit]
    simpa using hmade.countP_isClone hcount

theorem WrittenBody.countP_owned {body : Body}
    (hwritten : WrittenBody ops graph style later body) :
    body.statements.countP Statement.owned = graph.nodes.countP (graph.ownsFirst ops) := by
  have howned := hwritten.map_eq (fun _ _ _ _ hstatement ↦ hstatement.ownsFirst_eq.symm)
  rw [← Function.id_comp Statement.owned, ← List.countP_map, howned, List.countP_map,
    Function.id_comp]

/-- The decisions for the outputs stand after those for the nodes. -/
theorem WrittenBody.split_returned {body : Body}
    (hwritten : WrittenBody ops graph style later body) :
    ∃ before, body.decisions = before ++ body.returned.filterMap Reference.decision ∧
      before.length = graph.readCount graph.nodes.length := by
  have hlength := hwritten.length_decisions_take graph.nodes.length
  rw [List.take_of_length_le (by rw [← hwritten.map_node, List.length_map])] at hlength
  refine ⟨_, ?_, hlength⟩
  rw [Body.decisions, Body.references, List.filterMap_append, List.filterMap_flatMap]

/-- The decisions for the outputs are as many as the outputs. Assumes: no constant is returned. -/
theorem WrittenBody.length_returned {body : Body}
    (hwritten : WrittenBody ops graph style later body)
    (hreturned : ∀ name ∈ graph.outputs, graph.isConstant name = false) :
    (body.returned.filterMap Reference.decision).length = graph.outputs.length := by
  have hvariables : graph.variableNames graph.outputs = graph.outputs :=
    List.filter_eq_self.mpr fun name hname ↦ by rw [hreturned name hname]; rfl
  rw [hwritten.returned.decisions_eq, List.flatMap_map, Graph.flatMap_readsAt,
    ← List.length_map Decision.use, map_use_decisions, Graph.readsAt, List.length_map, hvariables]

/-- The copies among the returned references are the returned values that are still needed. Assumes:
no constant is returned. -/
theorem WrittenBody.countP_isClone_returned {body : Body}
    (hwritten : WrittenBody ops graph style later body)
    (hreturned : ∀ name ∈ graph.outputs, graph.isConstant name = false) :
    body.returned.countP Reference.isClone = (body.returned.filterMap Reference.decision).countP
      fun decision ↦ decision.ownership == .duplicate := by
  rw [List.countP_filterMap]
  refine List.countP_congr fun reference hreference ↦ ?_
  obtain ⟨slot, hslot, _, hmade⟩ := Sequenced.exists_of_mem hwritten.returned hreference
  obtain ⟨name, hname, rfl⟩ := List.mem_map.mp hslot
  rw [hmade.isClone_eq, hreturned name hname, Bool.true_and, Bool.false_or]
  cases reference.decision <;> rfl

end Written

/-! ### Generated modules -/

/-- What the statistics of a generated module count, for given operators: the decisions, one for
each variable that a node reads and one for each output; the generations that a node produces and
something reads; the nodes that own their first input; and the copies of their first inputs and of
the outputs. -/
structure Generated.CountsExactly (ops : List Op) (graph : Graph) (generated : Generated) :
    Prop where
  uses : generated.stats.uses = generated.decisions.length
  decisions : generated.decisions.length =
    (graph.nodes.flatMap fun node ↦ graph.variableNames node.inputs).length + graph.outputs.length
  split : generated.stats.moves + generated.stats.duplicates = generated.stats.uses
  moves : generated.stats.moves = graph.nodeGenerations.countP fun generation ↦
    ∃ read ∈ graph.reads, read.ident = generation.1 ∧ graph.origin read = some generation.2
  inPlace : generated.stats.inPlace = graph.nodes.countP (graph.ownsFirst ops)
  clones : generated.stats.clones =
    (graph.nodes.zipIdx.countP fun entry ↦
      graph.copiesFirstInput ops generated.decisions entry.1 entry.2) +
    (generated.decisions.drop (graph.readCount graph.nodes.length)).countP
      fun decision ↦ decision.ownership == .duplicate

/-- Assumes: the body of a module, in which every use resolves and no constant is returned. -/
theorem WrittenBody.countsExactly {ops : List Op} {graph : Graph} {style : ReferenceStyle}
    {body : Body} (hwritten : WrittenBody ops graph style [] body)
    (hresolved : graph.firstUnresolved? = none)
    (hreturned : ∀ name ∈ graph.outputs, graph.isConstant name = false) {generated : Generated}
    (hdecisions : generated.decisions = body.decisions) (hstats : generated.stats = body.stats) :
    generated.CountsExactly ops graph := by
  obtain ⟨before, hsplit, hbefore⟩ := hwritten.split_returned
  have hmoves := hwritten.decisions_eq
  rw [List.append_nil] at hmoves
  refine ⟨?_, ?_, ?_, ?_, ?_, ?_⟩
  · rw [hstats, hdecisions]
    rfl
  · rw [hdecisions, hsplit, List.length_append, hbefore, hwritten.length_returned hreturned,
      Graph.readCount, List.take_length]
  · rw [hstats]
    show ((body.decisions.filter Decision.isMove).length : Int) +
      (body.decisions.filter fun decision ↦ !decision.isMove).length = body.decisions.length
    rw [List.length_eq_length_filter_add (l := body.decisions) Decision.isMove, Int.natCast_add]
  · rw [hstats, ← Graph.countP_isMove_reads hresolved, ← hmoves, List.countP_eq_length_filter]
    rfl
  · rw [hstats, ← hwritten.countP_owned, List.countP_eq_length_filter]
    rfl
  · have hcopied : (body.decisions.drop (graph.readCount graph.nodes.length)) =
        body.returned.filterMap Reference.decision := by
      rw [hsplit, ← hbefore, List.drop_left]
    rw [hstats, hdecisions, hcopied, ← hwritten.countP_isClone_returned hreturned,
      ← hwritten.countP_isClone, ← Int.natCast_add, ← List.countP_append,
      List.countP_eq_length_filter]
    rfl

/-- The statistics of a generated module count its decisions exactly, and are what the counters come
to that are kept while its body is written. Assumes: no constant is returned. -/
theorem stats_exact {setup : Setup} {options : Options} {graph : Graph} {trace : Trace}
    {generated : Generated} (hgenerated : (generate setup options graph trace).1 = .ok generated)
    (hreturned : ∀ name ∈ graph.outputs, graph.isConstant name = false) :
    generated.CountsExactly setup.ops graph ∧
    ∃ built body final, buildLedger graph (.fresh trace.events) = (.ok (), built) ∧
      tallyBody setup.ops graph options.style { ledger := built } =
        (.ok body, ⟨final, generated.decisions, generated.stats⟩) := by
  obtain ⟨failOn, body, _, hmodule⟩ := generate_eq_ok (Prod.ext hgenerated rfl)
  obtain ⟨final, hwritten⟩ := hmodule.written
  obtain ⟨hresolved, _, hbody⟩ := writeBody_eq_ok _ _ _ hwritten
  obtain ⟨⟨⟩, built, hbuilt, hemitted⟩ := Stateful.bind_eq_ok_iff.mp hwritten
  rw [returnedConstants_eq_nil hreturned] at hbody
  refine ⟨hbody.countsExactly hresolved hreturned hmodule.decisions hmodule.stats, built, body,
    final, hbuilt, ?_⟩
  rw [hmodule.decisions, hmodule.stats]
  exact tallyBody_eq_ok hemitted

/-- The steps that build a graph whose nodes own a constant, a value on its last use and a value
that is still needed, and which returns one value twice. -/
def copyingSteps : Result Graph := do
  let shape := [Attr.int 2]
  let graph ← Graph.addInput { name := "copying" } "x" shape "float32"
  let graph ← graph.addConstant "w" (Tensor.tabulate .float32 [2] fun _ ↦ 0)
  let graph ← graph.addTensor "y" shape "float32"
  let graph ← graph.addTensor "z" shape "float32"
  let graph ← graph.addNode .relu ["w"] ["y"] {}
  let graph ← graph.addNode .relu ["y"] ["y"] {}
  let graph ← graph.addNode .add ["y", "x"] ["z"] {}
  return { graph with outputs := ["z", "z", "y"] }

/-- A graph whose nodes own their first inputs. -/
def copying : Graph := copyingSteps.toOption.get rfl

/-- Of the six uses three are the last ones of what the nodes produce. The constant, the second
value of `y` and the first return of `z` are copied. -/
theorem stats_exact_copying :
    ∃ generated, (generate standardSetup { strictness := "none" } copying {}).1 = .ok generated ∧
      (∀ name ∈ copying.outputs, copying.isConstant name = false) ∧
      generated.CountsExactly standardSetup.ops copying ∧
      generated.stats =
        { uses := 6, duplicates := 3, moves := 3, clones := 3, inPlace := 3 } := by
  have hstats :
      (generate standardSetup { strictness := "none" } copying {}).1.toOption.map Generated.stats =
        some { uses := 6, duplicates := 3, moves := 3, clones := 3, inPlace := 3 } := by
    decide +kernel
  obtain ⟨generated, hsome, hcounts⟩ := Option.map_eq_some_iff.mp hstats
  have hgenerated := Result.eq_ok_of_toOption_eq_some hsome
  have hreturned : ∀ name ∈ copying.outputs, copying.isConstant name = false := by
    decide +kernel
  exact ⟨generated, hgenerated, hreturned, (stats_exact hgenerated hreturned).1, hcounts⟩

end Handover
