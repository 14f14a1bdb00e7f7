import Handover.Proofs.Check.DeadValues
import Handover.Proofs.Evaluation.Binding

/-!
# Evaluation without dead values

What is reported as dead has no influence on what a graph returns (`evaluate_pruned`). Two
evaluations, one of them without some nodes whose outputs are all unused, keep environments that
agree on every name that is used (`Environment.AgreeOn`): a node that both run reads used names
only, so it binds the same values in both (`AgreeOn.step`), and a node that one of them skips binds
no used name (`AgreeOn.skip`).
-/

set_option autoImplicit false
set_option relaxedAutoImplicit false

namespace Handover

namespace Environment

/-! ### Environments that agree on some names -/

/-- Whether two environments bind the names that satisfy a condition alike. -/
def AgreeOn (seen : String → Prop) (first second : Environment) : Prop :=
  ∀ name, seen name → first.find? name = second.find? name

/-- The environment with one value after another bound to a name. -/
def bindAll (environment : Environment) (entries : List (String × Value)) : Environment :=
  entries.foldl (fun bound entry ↦ bound.insert entry.1 entry.2) environment

/-- The outputs of a node are bound in every environment to the same values. -/
theorem exists_bindAll {environment reached : Environment} {outputs : List String} {result : Value}
    (hbind : environment.bind outputs result = .ok reached) :
    ∃ entries : List (String × Value), (∀ entry ∈ entries, entry.1 ∈ outputs) ∧
      ∀ other : Environment, other.bind outputs result = .ok (other.bindAll entries) := by
  by_cases hsingle : outputs.length = 1
  · obtain ⟨output, rfl⟩ := List.length_eq_one_iff.mp hsingle
    exact ⟨[(output, result)], by simp, fun _ ↦ rfl⟩
  · rw [bind_of_length_ne_one hsingle] at hbind
    obtain ⟨parts, hparts, _⟩ := Result.bind_eq_ok_iff.mp hbind
    refine ⟨outputs.zip parts, fun entry hentry ↦ (List.of_mem_zip hentry).1, fun other ↦ ?_⟩
    rw [bind_of_length_ne_one hsingle, hparts]
    rfl

variable {seen : String → Prop} {first second reached : Environment} {ops : List Op} {node : Node}

theorem AgreeOn.bindAll (hagree : AgreeOn seen first second) (entries : List (String × Value)) :
    AgreeOn seen (first.bindAll entries) (second.bindAll entries) := by
  induction entries generalizing first second with
  | nil => exact hagree
  | cons entry rest ih =>
    refine ih fun name hname ↦ ?_
    by_cases hentry : name = entry.1
    · rw [hentry, OrderedMap.find?_insert_self, OrderedMap.find?_insert_self]
    · rw [OrderedMap.find?_insert_of_ne _ hentry, OrderedMap.find?_insert_of_ne _ hentry]
      exact hagree name hname

theorem agreeOn_bindAll_of_unseen {entries : List (String × Value)}
    (hunseen : ∀ entry ∈ entries, ¬ seen entry.1) (environment : Environment) :
    AgreeOn seen (environment.bindAll entries) environment := by
  induction entries generalizing environment with
  | nil => exact fun _ _ ↦ rfl
  | cons entry rest ih =>
    rw [List.forall_mem_cons] at hunseen
    intro name hname
    have hentry : name ≠ entry.1 := fun heq ↦ hunseen.1 (heq ▸ hname)
    exact (ih hunseen.2 _ name hname).trans (OrderedMap.find?_insert_of_ne _ hentry _)

theorem AgreeOn.value (hagree : AgreeOn seen first second) {name : String} (hname : seen name) :
    first.value name = second.value name := by
  unfold Environment.value
  rw [hagree name hname]

/-- Calls for names that two environments bind alike. -/
theorem AgreeOn.mapM {α : Type} (hagree : AgreeOn seen first second) {names : List String}
    (hnames : ∀ name ∈ names, seen name) (call : String → Result Value → Result α) :
    (names.mapM fun name ↦ call name (first.value name)) =
      names.mapM fun name ↦ call name (second.value name) := by
  induction names with
  | nil => rfl
  | cons name rest ih =>
    rw [List.forall_mem_cons] at hnames
    rw [List.mapM_cons, List.mapM_cons, hagree.value hnames.1, ih hnames.2]

/-! ### One node -/

/-- A node that reads seen names only binds its outputs alike. -/
theorem AgreeOn.step (hagree : AgreeOn seen first second) (hreads : ∀ name ∈ node.inputs, seen name)
    (hstep : first.step ops node = .ok reached) :
    ∃ other, second.step ops node = .ok other ∧ AgreeOn seen reached other := by
  unfold Environment.step at hstep ⊢
  split_ifs at hstep ⊢ with hdefined
  · cases hstep
  obtain ⟨operands, hoperands, hrest⟩ := Result.bind_eq_ok_iff.mp hstep
  obtain ⟨result, hresult, hbind⟩ := Result.bind_eq_ok_iff.mp hrest
  obtain ⟨entries, _, hbound⟩ := exists_bindAll hbind
  obtain rfl := Except.ok.inj (hbind.symm.trans (hbound first))
  have hsame : node.inputs.mapM second.value = .ok operands :=
    (hagree.mapM hreads fun _ value ↦ value).symm.trans hoperands
  refine ⟨second.bindAll entries, ?_, hagree.bindAll entries⟩
  exact Result.bind_eq_ok_iff.mpr
    ⟨operands, hsame, Result.bind_eq_ok_iff.mpr ⟨result, hresult, hbound second⟩⟩

/-- A node that binds no seen name can be skipped. -/
theorem AgreeOn.skip (hagree : AgreeOn seen first second)
    (hwrites : ∀ name ∈ node.outputs, ¬ seen name) (hstep : first.step ops node = .ok reached) :
    AgreeOn seen reached second := by
  obtain ⟨operands, result, hoperands, hresult, hbind⟩ := step_eq_ok hstep
  obtain ⟨entries, houtputs, hbound⟩ := exists_bindAll hbind
  obtain rfl := Except.ok.inj (hbind.symm.trans (hbound first))
  have hunseen : ∀ entry ∈ entries, ¬ seen entry.1 := fun entry hentry ↦
    hwrites _ (houtputs entry hentry)
  exact fun name hname ↦
    (agreeOn_bindAll_of_unseen hunseen first name hname).trans (hagree name hname)

/-! ### All nodes -/

/-- Assumes: nodes that are kept read seen names only, and the others bind none. -/
theorem AgreeOn.run {nodes : List Node} {keep : Node → Bool} {final : Environment}
    (hagree : AgreeOn seen first second)
    (hkept : ∀ node ∈ nodes, keep node = true → ∀ name ∈ node.inputs, seen name)
    (hskipped : ∀ node ∈ nodes, keep node = false → ∀ name ∈ node.outputs, ¬ seen name)
    (hrun : nodes.foldlM (Environment.step ops) first = .ok final) :
    ∃ other, (nodes.filter keep).foldlM (Environment.step ops) second = .ok other ∧
      AgreeOn seen final other := by
  induction nodes generalizing first second with
  | nil =>
    obtain rfl := Except.ok.inj hrun
    exact ⟨second, rfl, hagree⟩
  | cons node rest ih =>
    rw [List.forall_mem_cons] at hkept hskipped
    rw [List.foldlM_cons] at hrun
    obtain ⟨reached, hstep, hrest⟩ := Result.bind_eq_ok_iff.mp hrun
    cases hkeep : keep node with
    | true =>
      obtain ⟨other, hother, hreached⟩ := hagree.step (hkept.1 hkeep) hstep
      rw [List.filter_cons_of_pos hkeep, List.foldlM_cons, hother]
      exact ih hreached hkept.2 hskipped.2 hrest
    | false =>
      rw [List.filter_cons_of_neg (by simp [hkeep])]
      exact ih (hagree.skip (hskipped.1 hkeep) hstep) hkept.2 hskipped.2 hrest

end Environment

/-! ### The pruned graph -/

namespace Graph

/-- The graph without the nodes all of whose outputs are reported as dead. -/
def pruned (graph : Graph) (found : List Finding) : Graph :=
  { graph with
    nodes := graph.nodes.filter fun node ↦ !node.outputs.all (node.isReportedDead found) }

variable {graph : Graph} {ops : List Op} {inputs : OrderedMap String Strided}
  {outputs : Environment} {keep : Node → Bool}

/-- An evaluation returns the same when it skips nodes whose outputs are all unused. -/
theorem evaluate_filter (hskipped : ∀ node ∈ graph.nodes, keep node = false →
      ∀ name ∈ node.outputs, graph.IsUnused name)
    (hevaluated : evaluate ops graph inputs = .ok outputs) :
    evaluate ops { graph with nodes := graph.nodes.filter keep } inputs = .ok outputs := by
  obtain ⟨initial, hinitial, hrest⟩ := Result.bind_eq_ok_iff.mp hevaluated
  obtain ⟨final, hrun, hreturned⟩ := Result.bind_eq_ok_iff.mp hrest
  have hread : ∀ node ∈ graph.nodes, keep node = true → ∀ name ∈ node.inputs,
      ¬ graph.IsUnused name := fun node hnode _ name hname hunused ↦ hunused.1 node hnode hname
  have hunseen : ∀ node ∈ graph.nodes, keep node = false → ∀ name ∈ node.outputs,
      ¬ ¬ graph.IsUnused name := fun node hnode hkeep name hname ↦
    not_not.mpr (hskipped node hnode hkeep name hname)
  obtain ⟨other, hother, hagree⟩ :=
    Environment.AgreeOn.run (fun _ _ ↦ rfl) hread hunseen hrun
  have hreturns : ∀ name ∈ graph.outputs, ¬ graph.IsUnused name := fun name hname hunused ↦
    hunused.2 hname
  refine Result.bind_eq_ok_iff.mpr
    ⟨initial, hinitial, Result.bind_eq_ok_iff.mpr ⟨other, hother, ?_⟩⟩
  rw [← hreturned]
  exact congrArg (· >>= fun entries ↦ .ok (OrderedMap.ofList entries)) (hagree.mapM hreturns
    fun name value ↦ do return (name, ← value)).symm

end Graph

/-- A value that is reported as dead has no influence on what a graph returns. Where an evaluation
succeeds, it succeeds with the same outputs without the nodes all of whose outputs are reported, and
without any of these. -/
theorem evaluate_pruned {ops : List Op} {graph : Graph} {inputs : OrderedMap String Strided}
    {outputs : Environment} (hbuilt : graph.Built)
    (hevaluated : evaluate ops graph inputs = .ok outputs) :
    ∃ found, deadValues graph = .ok found ∧
      evaluate ops (graph.pruned found) inputs = .ok outputs ∧
      ∀ keep : Node → Bool, (∀ node ∈ graph.nodes, keep node = false →
          ∀ name ∈ node.outputs, node.isReportedDead found name = true) →
        evaluate ops { graph with nodes := graph.nodes.filter keep } inputs = .ok outputs := by
  obtain ⟨found, hfound, hreported⟩ := hbuilt.consistent.exists_deadValues
  have hfilter : ∀ keep : Node → Bool, (∀ node ∈ graph.nodes, keep node = false →
        ∀ name ∈ node.outputs, node.isReportedDead found name = true) →
      evaluate ops { graph with nodes := graph.nodes.filter keep } inputs = .ok outputs :=
    fun keep hkeep ↦ Graph.evaluate_filter (fun node hnode hskipped name hname ↦
      ((hreported node hnode name).mp (hkeep node hnode hskipped name hname)).2) hevaluated
  refine ⟨found, hfound, hfilter _ fun node _ hskipped ↦ ?_, hfilter⟩
  rw [Bool.not_eq_false', List.all_eq_true] at hskipped
  exact hskipped

/-- A graph with three values of one name that nothing reads. Two of them come from splits, one with
both of its pieces dead and one with a piece that is read. -/
def unreadPieces : Graph :=
  (Graph.make "unread_pieces"
    [.input "x" [.int 4] "float32", .tensor "a" [.int 2] "float32", .tensor "b" [.int 2] "float32",
      .tensor "d" [.int 2] "float32", .tensor "y" [.int 2] "float32", .node .relu ["x"] ["d"] {},
      .node .split ["x"] ["a", "d"] (splitAttrs (.list [.int 2, .int 2])),
      .node .split ["x"] ["b", "d"] (splitAttrs (.list [.int 2, .int 2])),
      .node .mul ["b", "b"] ["y"] {}] ["y"]).toOption.get rfl

theorem built_unreadPieces : unreadPieces.Built := (Graph.built_make _ _ _).get rfl

/-- Two of the nodes go, and the square of the second half is returned as before. -/
theorem evaluate_pruned_unreadPieces :
    ∃ found outputs, unreadPieces.Built ∧
      evaluate Op.catalog unreadPieces firstFour = .ok outputs ∧
      deadValues unreadPieces = .ok found ∧
      (unreadPieces.pruned found).nodes.map Node.id = [2, 3] ∧
      evaluate Op.catalog (unreadPieces.pruned found) firstFour = .ok outputs := by
  have hevaluated : (evaluate Op.catalog unreadPieces firstFour).toOption.isSome = true := by
    decide +kernel
  have hleft : (deadValues unreadPieces).toOption.map (fun found ↦
      (unreadPieces.pruned found).nodes.map Node.id) = some [2, 3] := by decide +kernel
  obtain ⟨outputs, houtputs⟩ := Result.returns_of_isSome hevaluated
  obtain ⟨found, hfound, hpruned, _⟩ := evaluate_pruned built_unreadPieces houtputs
  rw [hfound] at hleft
  exact ⟨found, outputs, built_unreadPieces, houtputs, hfound, Option.some.inj hleft, hpruned⟩

end Handover
