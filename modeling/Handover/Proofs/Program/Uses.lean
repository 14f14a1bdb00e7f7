import Handover.Program.Emission
import Handover.Proofs.Ledger.Account

/-!
# Uses of a graph

The uses of the values of a graph, read off the graph itself: the reads in program order
(`Graph.reads`), the hold of the caller on each input (`Graph.holds`), and the positions at which an
identifier is produced (`Graph.producedAt`), which is 0 for an input and one past its index for a
node. A use resolves to the greatest of these positions at or below its own (`Graph.origin`).
-/

set_option autoImplicit false
set_option relaxedAutoImplicit false

namespace Handover

namespace Graph

variable (graph : Graph)

/-! ### What a graph reads and produces -/

/-- The names among some that are not those of constants. -/
def variableNames (names : List String) : List String :=
  names.filter fun name ↦ !graph.isConstant name

/-- The reads of some names at a position. -/
def readsAt (position : Int) (names : List String) : List Use :=
  (graph.variableNames names).map fun name ↦ ⟨sanitize name, position⟩

/-- The reads of a graph in program order: each node reads its inputs at its index, and the return
statement reads the outputs at the number of nodes. Constants are not read as variables. -/
def reads : List Use :=
  graph.nodes.zipIdx.flatMap (fun entry ↦ graph.readsAt entry.2 entry.1.inputs) ++
    graph.readsAt graph.nodes.length graph.outputs

/-- The hold of the caller on each input. -/
def holds : List Use := graph.inputs.map fun name ↦ ⟨sanitize name, 0⟩

/-- The uses registered for returned constants, which are never resolved. -/
def returnedConstants : List Use :=
  (graph.outputs.filter graph.isConstant).map fun name ↦ ⟨sanitize name, graph.nodes.length⟩

/-- The positions at which an identifier is produced: 0 for an input, and one past the index for
every node that binds it. -/
def producedAt (ident : String) : List Int :=
  (graph.inputs.filter fun name ↦ sanitize name = ident).map (fun _ ↦ 0) ++
    (graph.nodes.zipIdx.filter fun entry ↦ ident ∈ entry.1.outputs.map sanitize).map
      fun entry ↦ (entry.2 : Int) + 1

/-- The position of the generation that a use resolves to: the greatest position at or below its own
at which its identifier is produced. -/
def origin (use : Use) : Option Int :=
  ((graph.producedAt use.ident).filter fun position ↦ position ≤ use.position).max?

variable {graph}

theorem readsAt_constant {name : String} (hconstant : graph.isConstant name = true)
    (position : Int) : graph.readsAt position [name] = [] := by
  simp [readsAt, variableNames, hconstant]

theorem readsAt_variable {name : String} (hvariable : graph.isConstant name = false)
    (position : Int) : graph.readsAt position [name] = [⟨sanitize name, position⟩] := by
  simp [readsAt, variableNames, hvariable]

theorem readsAt_cons (position : Int) (name : String) (names : List String) :
    graph.readsAt position (name :: names) =
      graph.readsAt position [name] ++ graph.readsAt position names := by
  cases hconstant : graph.isConstant name <;> simp [readsAt, variableNames, hconstant]

theorem flatMap_readsAt (position : Int) (names : List String) :
    (names.flatMap fun name ↦ graph.readsAt position [name]) = graph.readsAt position names := by
  induction names with
  | nil => rfl
  | cons name rest ih => rw [List.flatMap_cons, ih, ← readsAt_cons]

theorem mem_producedAt_iff {ident : String} {position : Int} :
    position ∈ graph.producedAt ident ↔
      (position = 0 ∧ ∃ name ∈ graph.inputs, sanitize name = ident) ∨
        ∃ (index : Nat) (node : Node), graph.nodes[index]? = some node ∧
          ident ∈ node.outputs.map sanitize ∧ position = index + 1 := by
  unfold producedAt
  rw [List.mem_append]
  refine or_congr ?_ ?_
  · simp only [List.mem_map, List.mem_filter, decide_eq_true_eq]
    constructor
    · rintro ⟨name, ⟨hname, hident⟩, rfl⟩
      exact ⟨rfl, name, hname, hident⟩
    · rintro ⟨rfl, name, hname, hident⟩
      exact ⟨name, ⟨hname, hident⟩, rfl⟩
  · rw [List.mem_map]
    simp only [List.mem_filter, decide_eq_true_eq]
    constructor
    · rintro ⟨⟨node, index⟩, ⟨hentry, hident⟩, rfl⟩
      exact ⟨index, node, List.mem_zipIdx_iff_getElem?.mp hentry, hident, rfl⟩
    · rintro ⟨index, node, hnode, hident, rfl⟩
      exact ⟨(node, index), ⟨List.mem_zipIdx_iff_getElem?.mpr hnode, hident⟩, rfl⟩

theorem origin_eq_some_iff {use : Use} {position : Int} :
    graph.origin use = some position ↔
      IsGreatest {place | place ∈ graph.producedAt use.ident ∧ place ≤ use.position} position := by
  rw [origin, List.max?_eq_some_iff]
  simp only [List.mem_filter, decide_eq_true_eq]
  exact Iff.rfl

theorem origin_eq_none_iff {use : Use} :
    graph.origin use = none ↔ ∀ place ∈ graph.producedAt use.ident, use.position < place := by
  rw [origin, List.max?_eq_none_iff, List.filter_eq_nil_iff]
  simp

/-- Generations stand at position 0 or later. -/
theorem eq_zero_or_pos_of_mem_producedAt {ident : String} {place : Int}
    (hplace : place ∈ graph.producedAt ident) : place = 0 ∨ 1 ≤ place := by
  rcases mem_producedAt_iff.mp hplace with ⟨hzero, _⟩ | ⟨index, _, _, _, rfl⟩
  · exact .inl hzero
  · exact .inr (by omega)

/-- An identifier is produced at position 0 when it is that of an input. -/
theorem zero_mem_producedAt_iff {ident : String} :
    0 ∈ graph.producedAt ident ↔ ∃ name ∈ graph.inputs, sanitize name = ident := by
  rw [mem_producedAt_iff]
  constructor
  · rintro (⟨_, hname⟩ | ⟨index, _, _, _, hindex⟩)
    · exact hname
    · omega
  · exact fun hname ↦ .inl ⟨rfl, hname⟩

/-- An identifier is produced one past an index when the node there binds it. -/
theorem succ_mem_producedAt_iff {ident : String} {index : Nat} :
    (index : Int) + 1 ∈ graph.producedAt ident ↔
      ∃ node, graph.nodes[index]? = some node ∧ ident ∈ node.outputs.map sanitize := by
  rw [mem_producedAt_iff]
  constructor
  · rintro (⟨hzero, _⟩ | ⟨other, node, hnode, hident, hother⟩)
    · omega
    · obtain rfl : index = other := by omega
      exact ⟨node, hnode, hident⟩
  · rintro ⟨node, hnode, hident⟩
    exact .inr ⟨index, node, hnode, hident, rfl⟩

/-- A use where its identifier is produced resolves to that position. -/
theorem origin_of_mem {ident : String} {position : Int}
    (hproduced : position ∈ graph.producedAt ident) :
    graph.origin ⟨ident, position⟩ = some position :=
  origin_eq_some_iff.mpr ⟨⟨hproduced, le_refl _⟩, fun _ hplace ↦ hplace.2⟩

/-- A use one past an index where its identifier is not produced resolves as at the index. -/
theorem origin_succ_of_not_mem {ident : String} {index : Nat}
    (habsent : (index : Int) + 1 ∉ graph.producedAt ident) :
    graph.origin ⟨ident, (index : Int) + 1⟩ = graph.origin ⟨ident, index⟩ := by
  unfold origin
  congr 1
  refine List.filter_congr fun place hplace ↦ ?_
  have hne : place ≠ (index : Int) + 1 := fun heq ↦ habsent (heq ▸ hplace)
  rw [decide_eq_decide]
  dsimp only
  omega

/-- The hold of the caller on an input resolves to the input. -/
theorem origin_hold {name : String} (hinput : name ∈ graph.inputs) :
    graph.origin ⟨sanitize name, 0⟩ = some 0 :=
  origin_of_mem (zero_mem_producedAt_iff.mpr ⟨name, hinput, rfl⟩)

/-- A use shares its generation with the hold of the caller on some input exactly when it resolves
to an input. -/
theorem exists_hold_shares_iff {use : Use} {position : Int}
    (horigin : graph.origin use = some position) :
    (∃ hold ∈ graph.holds, Use.Shares graph.origin hold use) ↔ position = 0 := by
  constructor
  · rintro ⟨hold, hmem, _, hshares⟩
    obtain ⟨name, hinput, rfl⟩ := List.mem_map.mp hmem
    rw [origin_hold hinput, horigin] at hshares
    exact (Option.some.inj hshares).symm
  · rintro rfl
    obtain ⟨⟨hmem, _⟩, _⟩ := origin_eq_some_iff.mp horigin
    obtain ⟨name, hinput, hident⟩ := zero_mem_producedAt_iff.mp hmem
    refine ⟨⟨sanitize name, 0⟩, List.mem_map_of_mem hinput, hident, ?_⟩
    rw [origin_hold hinput, horigin]

end Graph

/-- Assumes: no constant is returned. -/
theorem returnedConstants_eq_nil {graph : Graph}
    (hreturned : ∀ name ∈ graph.outputs, graph.isConstant name = false) :
    graph.returnedConstants = [] := by
  rw [Graph.returnedConstants, List.map_eq_nil_iff, List.filter_eq_nil_iff]
  intro name hname
  rw [hreturned name hname]
  exact Bool.false_ne_true

end Handover
