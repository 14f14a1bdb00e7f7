import Handover.Proofs.Generation.Outcome

/-!
# Last uses

The decisions of a generated module are those of the reads of its graph, in program order, and each
hands the value over exactly when it is the last read of a generation that a node produced
(`decisions_exact`). A read of an input never does, since the caller holds the input
(`Graph.exists_hold_shares_iff`).
-/

set_option autoImplicit false
set_option relaxedAutoImplicit false

namespace Handover

section Decisions

variable {origin : Use → Option Int} {later : List Use}

/-- A decision among those for some uses is that of one of them before the others after it. -/
theorem exists_use_of_decisions_split {uses : List Use} {before after : List Decision}
    {decision : Decision} (hsplit : Use.decisions origin later uses = before ++ decision :: after) :
    ∃ use rest, use ∈ uses ∧ decision = use.decision origin (rest ++ later) ∧
      after = Use.decisions origin later rest := by
  induction uses generalizing before with
  | nil => simp [Use.decisions] at hsplit
  | cons use rest ih =>
    cases before with
    | nil =>
      obtain ⟨rfl, rfl⟩ := List.cons.inj hsplit
      exact ⟨use, rest, List.mem_cons_self .., rfl, rfl⟩
    | cons head tail =>
      obtain ⟨_, hrest⟩ := List.cons.inj hsplit
      obtain ⟨found, others, hmem, hdecision, hafter⟩ := ih hrest
      exact ⟨found, others, List.mem_cons_of_mem _ hmem, hdecision, hafter⟩

theorem ownership_eq_duplicate_iff {decision : Decision} :
    decision.ownership = .duplicate ↔ decision.isMove = false := by
  unfold Decision.isMove
  cases decision.ownership <;> simp

end Decisions

/-- The decisions of a generated module, one for each read of a variable in program order. A
decision hands its value over exactly when the generation that it resolves to was produced by a node
and no later decision resolves to it. Assumes: no constant is returned. -/
theorem decisions_exact {setup : Setup} {options : Options} {graph : Graph} {trace : Trace}
    {generated : Generated} (hgenerated : (generate setup options graph trace).1 = .ok generated)
    (hreturned : ∀ name ∈ graph.outputs, graph.isConstant name = false) :
    generated.decisions.map Decision.use = graph.reads ∧
    ∀ before decision after, generated.decisions = before ++ decision :: after →
      ∃ position,
        IsGreatest {place | place ∈ graph.producedAt decision.name ∧ place ≤ decision.position}
          position ∧
        (decision.isMove = true ↔ 1 ≤ position ∧ ∀ later ∈ after,
          ¬ Use.Shares graph.origin later.use decision.use) ∧
        (position = 0 → decision.ownership = .duplicate) := by
  obtain ⟨failOn, body, _, hmodule⟩ := generate_eq_ok (Prod.ext hgenerated rfl)
  obtain ⟨ledger, hwritten⟩ := hmodule.written
  obtain ⟨hresolved, _, hbody⟩ := writeBody_eq_ok _ _ _ hwritten
  have hdecisions := hbody.decisions_eq
  rw [returnedConstants_eq_nil hreturned, List.append_nil, ← hmodule.decisions] at hdecisions
  rw [hdecisions]
  refine ⟨map_use_decisions _, ?_⟩
  intro before decision after hsplit
  obtain ⟨use, rest, hmem, rfl, rfl⟩ := exists_use_of_decisions_split hsplit
  obtain ⟨position, horigin⟩ := exists_origin_of_resolved hresolved
    ((usesOf_buildCalls_perm graph).mem_iff.mpr (List.mem_append_left _ hmem))
  have hholds := Graph.exists_hold_shares_iff horigin
  have hmove : (use.decision graph.origin (rest ++ graph.holds)).isMove = true ↔
      1 ≤ position ∧ ∀ later ∈ Use.decisions graph.origin graph.holds rest,
        ¬ Use.Shares graph.origin later.use use := by
    have hproduced := Graph.eq_zero_or_pos_of_mem_producedAt
      (Graph.origin_eq_some_iff.mp horigin).1.1
    have hlater : (∀ later ∈ Use.decisions graph.origin graph.holds rest,
        ¬ Use.Shares graph.origin later.use use) ↔
        ¬ ∃ other ∈ rest, Use.Shares graph.origin other use := by
      rw [← List.forall_mem_map (f := Decision.use)
        (P := fun other ↦ ¬ Use.Shares graph.origin other use), map_use_decisions]
      simp only [not_exists, not_and]
    rw [isMove_decision_iff, hlater]
    simp only [List.mem_append, or_and_right, exists_or, not_or, hholds]
    rw [and_comm]
    refine and_congr_left fun _ ↦ ?_
    omega
  refine ⟨position, Graph.origin_eq_some_iff.mp horigin, hmove, ?_⟩
  rintro rfl
  refine ownership_eq_duplicate_iff.mpr ?_
  rw [← Bool.not_eq_true, hmove]
  exact fun h ↦ absurd h.1 (by omega)

/-- The steps that build a graph which reads an input twice in one node, binds a name again, and
returns an input and one value twice. -/
def rebindingSteps : Result Graph := do
  let shape := [Attr.int 2]
  let graph ← Graph.addInput { name := "rebinding" } "x:0" shape "float32"
  let graph ← graph.addTensor "y" shape "float32"
  let graph ← graph.addTensor "z" shape "float32"
  let graph ← graph.addNode .add ["x:0", "x:0"] ["y"] {}
  let graph ← graph.addNode .relu ["y"] ["y"] {}
  let graph ← graph.addNode .add ["y", "x:0"] ["z"] {}
  return { graph with outputs := ["z", "x:0", "z", "y"] }

/-- A graph that binds a name again. -/
def rebinding : Graph := rebindingSteps.toOption.get rfl

/-- The read before the second binding and the last reads of the two values after it hand their
values over. -/
theorem decisions_exact_rebinding :
    ∃ generated, (generate standardSetup { strictness := "none" } rebinding {}).1 = .ok generated ∧
      (∀ name ∈ rebinding.outputs, rebinding.isConstant name = false) ∧
      generated.decisions.map Decision.use = rebinding.reads ∧
      generated.decisions.map Decision.ownership =
        [.duplicate, .duplicate, .move, .duplicate, .duplicate, .duplicate, .duplicate, .move,
          .move] := by
  have hownerships : ((generate standardSetup { strictness := "none" } rebinding {}).1.toOption.map
      fun generated ↦ generated.decisions.map Decision.ownership) =
      some [.duplicate, .duplicate, .move, .duplicate, .duplicate, .duplicate, .duplicate, .move,
        .move] := by decide +kernel
  obtain ⟨generated, hsome, hlist⟩ := Option.map_eq_some_iff.mp hownerships
  have hgenerated := Result.eq_ok_of_toOption_eq_some hsome
  have hreturned : ∀ name ∈ rebinding.outputs, rebinding.isConstant name = false := by
    decide +kernel
  exact ⟨generated, hgenerated, hreturned, (decisions_exact hgenerated hreturned).1, hlist⟩

end Handover
