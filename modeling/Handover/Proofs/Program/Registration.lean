import Handover.Proofs.Computation
import Handover.Proofs.Program.Uses

/-!
# Registrations in time

The registrations of a graph are made in an order in which no producer takes a use away from an
earlier one: each stands at the last position so far, after every earlier use of its identifier or
at a position where that identifier is produced already (`BuildCall.Timely`,
`Graph.timelyAfter_buildCalls`). A generation that is registered after a use is therefore later than
the use, unless it was there before (`lt_or_produced_of_timelyAfter`). Together the registrations
produce the positions of the graph (`produced_buildCalls`), and their uses are its reads, the holds
of its inputs and its returned constants (`usesOf_buildCalls_perm`).
-/

set_option autoImplicit false
set_option relaxedAutoImplicit false

namespace Handover

namespace BuildCall

/-- The use that a registration registers, with its site. -/
def read? : BuildCall → Option (Site × String)
  | produce _ _ => none
  | futureUse site name => some (site, name)

/-- Whether a registration produces an identifier at a position. -/
def Produces (ident : String) (place : Int) : BuildCall → Prop
  | produce name position => sanitize name = ident ∧ position = place
  | futureUse _ _ => False

end BuildCall

/-- The use of a name at a site. -/
def Site.use (entry : Site × String) : Use := ⟨sanitize entry.2, entry.1.position⟩

/-- The uses that some registrations register, in order. -/
def usesOf (calls : List BuildCall) : List Use := (calls.filterMap BuildCall.read?).map Site.use

/-- Whether some registrations produce an identifier at a position. -/
def Produced (calls : List BuildCall) (ident : String) (place : Int) : Prop :=
  ∃ call ∈ calls, call.Produces ident place

/-! ### The order of registrations -/

namespace BuildCall

/-- A producer that comes after some registrations is in time when none of them produces at a later
position, and every use of its identifier among them stands at an earlier position unless the same
generation is there already. -/
def Timely (done : List BuildCall) (name : String) (position : Int) : Prop :=
  (∀ ident place, Produced done ident place → place ≤ position) ∧
    ∀ use ∈ usesOf done, use.ident = sanitize name →
      use.position < position ∨ Produced done (sanitize name) position

/-- Every producer among some registrations that follow others is in time. -/
def TimelyAfter : List BuildCall → List BuildCall → Prop
  | _, [] => True
  | done, produce name position :: rest =>
    Timely done name position ∧ TimelyAfter (done ++ [produce name position]) rest
  | done, futureUse site name :: rest => TimelyAfter (done ++ [futureUse site name]) rest

end BuildCall

section Order

variable {done todo calls others : List BuildCall} {ident : String} {place : Int}

theorem produced_append :
    Produced (calls ++ others) ident place ↔
      Produced calls ident place ∨ Produced others ident place := by
  simp only [Produced, List.mem_append, or_and_right, exists_or]

theorem produced_flatMap {α : Type} {items : List α} {made : α → List BuildCall} :
    Produced (items.flatMap made) ident place ↔
      ∃ item ∈ items, Produced (made item) ident place := by
  simp only [Produced, List.mem_flatMap]
  constructor
  · rintro ⟨call, ⟨item, hitem, hcall⟩, hplace⟩
    exact ⟨item, hitem, call, hcall, hplace⟩
  · rintro ⟨item, hitem, call, hcall, hplace⟩
    exact ⟨call, ⟨item, hitem, hcall⟩, hplace⟩

theorem usesOf_append : usesOf (calls ++ others) = usesOf calls ++ usesOf others := by
  rw [usesOf, List.filterMap_append, List.map_append]
  rfl

@[simp] theorem produced_nil : ¬ Produced [] ident place := by
  simp [Produced]

@[simp] theorem produced_cons_futureUse {site : Site} {name : String} :
    Produced (.futureUse site name :: calls) ident place ↔ Produced calls ident place := by
  simp [Produced, BuildCall.Produces]

@[simp] theorem produced_cons_produce {name : String} {position : Int} :
    Produced (.produce name position :: calls) ident place ↔
      (sanitize name = ident ∧ position = place) ∨ Produced calls ident place := by
  simp [Produced, BuildCall.Produces]

@[simp] theorem usesOf_nil : usesOf [] = [] := rfl

@[simp] theorem usesOf_cons_futureUse {site : Site} {name : String} :
    usesOf (.futureUse site name :: calls) = ⟨sanitize name, site.position⟩ :: usesOf calls := rfl

@[simp] theorem usesOf_cons_produce {name : String} {position : Int} :
    usesOf (.produce name position :: calls) = usesOf calls := rfl

theorem timelyAfter_append :
    BuildCall.TimelyAfter done (calls ++ others) ↔
      BuildCall.TimelyAfter done calls ∧ BuildCall.TimelyAfter (done ++ calls) others := by
  induction calls generalizing done with
  | nil => simp [BuildCall.TimelyAfter]
  | cons call rest ih =>
    cases call with
    | produce name position =>
      simp only [List.cons_append, BuildCall.TimelyAfter, ih, List.append_assoc, List.nil_append,
        and_assoc]
    | futureUse site name =>
      simp only [List.cons_append, BuildCall.TimelyAfter, ih, List.append_assoc, List.nil_append]

/-- A generation that is registered after a use stands at a later position than the use, unless it
was there before. -/
theorem lt_or_produced_of_timelyAfter (htimely : BuildCall.TimelyAfter done todo) {use : Use}
    (huse : use ∈ usesOf done) (hproduced : Produced todo use.ident place) :
    use.position < place ∨ Produced done use.ident place := by
  induction todo generalizing done with
  | nil => exact absurd hproduced produced_nil
  | cons call rest ih =>
    have hlater : use ∈ usesOf (done ++ [call]) := by
      rw [usesOf_append]
      exact List.mem_append_left _ huse
    cases call with
    | futureUse site name =>
      refine (ih htimely hlater (produced_cons_futureUse.mp hproduced)).imp_right fun hplace ↦ ?_
      simpa [produced_append] using hplace
    | produce name position =>
      have hhead : sanitize name = use.ident ∧ position = place →
          use.position < place ∨ Produced done use.ident place := by
        rintro ⟨hident, rfl⟩
        rw [← hident]
        exact htimely.1.2 use huse hident.symm
      rcases produced_cons_produce.mp hproduced with hplace | hplace
      · exact hhead hplace
      · rcases ih htimely.2 hlater hplace with hlt | hearlier
        · exact .inl hlt
        · rw [produced_append, produced_cons_produce] at hearlier
          rcases hearlier with hearlier | hplace | hnone
          · exact .inr hearlier
          · exact hhead hplace
          · exact absurd hnone produced_nil

end Order

/-! ### The registrations of a graph -/

section Registrations

variable {done calls : List BuildCall} {clock position : Int}

/-- No registration among some is past a position. -/
def NotPast (calls : List BuildCall) (clock : Int) : Prop :=
  (∀ ident place, Produced calls ident place → place ≤ clock) ∧
    ∀ use ∈ usesOf calls, use.position ≤ clock

theorem NotPast.append {others : List BuildCall} (hcalls : NotPast calls clock)
    (hothers : NotPast others clock) : NotPast (calls ++ others) clock := by
  refine ⟨?_, ?_⟩
  · intro ident place hplace
    exact (produced_append.mp hplace).elim (hcalls.1 ident place) (hothers.1 ident place)
  · intro use huse
    rw [usesOf_append, List.mem_append] at huse
    exact huse.elim (hcalls.2 use) (hothers.2 use)

theorem NotPast.mono (hcalls : NotPast calls clock) (hle : clock ≤ position) :
    NotPast calls position :=
  ⟨fun ident place hplace ↦ (hcalls.1 ident place hplace).trans hle,
    fun use huse ↦ (hcalls.2 use huse).trans hle⟩

theorem produced_futureUses (site : Site) (names : List String) {ident : String} {place : Int} :
    ¬ Produced (names.map (BuildCall.futureUse site)) ident place := by
  simp [Produced, BuildCall.Produces]

theorem usesOf_futureUses (site : Site) (names : List String) :
    usesOf (names.map (BuildCall.futureUse site)) =
      names.map fun name ↦ ⟨sanitize name, site.position⟩ := by
  induction names with
  | nil => rfl
  | cons name rest ih => rw [List.map_cons, usesOf_cons_futureUse, ih, List.map_cons]

theorem timelyAfter_futureUses (site : Site) (names : List String) :
    BuildCall.TimelyAfter done (names.map (BuildCall.futureUse site)) := by
  induction names generalizing done with
  | nil => trivial
  | cons name rest ih => exact ih

theorem produced_produces (names : List String) {ident : String} {place : Int} :
    Produced (names.map fun name ↦ .produce name position) ident place ↔
      ident ∈ names.map sanitize ∧ place = position := by
  induction names with
  | nil => simp
  | cons name rest ih =>
    rw [List.map_cons, produced_cons_produce, ih, List.map_cons, List.mem_cons, or_and_right,
      eq_comm (a := ident), eq_comm (a := place)]

theorem usesOf_produces (names : List String) :
    usesOf (names.map fun name ↦ .produce name position) = [] := by
  induction names with
  | nil => rfl
  | cons name rest ih => rw [List.map_cons, usesOf_cons_produce, ih]

/-- Producers at a position are in time when nothing before them is past the position and every use
before them stands at an earlier one. -/
theorem timelyAfter_produces
    (hproduced : ∀ ident place, Produced done ident place → place ≤ position)
    (huses : ∀ use ∈ usesOf done, use.position < position) (names : List String) :
    BuildCall.TimelyAfter done (names.map fun name ↦ .produce name position) := by
  induction names generalizing done with
  | nil => trivial
  | cons name rest ih =>
    refine ⟨⟨hproduced, fun use huse _ ↦ .inl (huses use huse)⟩, ih ?_ ?_⟩
    · intro ident place hplace
      rw [produced_append, produced_cons_produce] at hplace
      rcases hplace with hplace | ⟨_, rfl⟩ | hnone
      · exact hproduced ident place hplace
      · exact le_refl _
      · exact absurd hnone produced_nil
    · intro use huse
      rw [usesOf_append] at huse
      exact huses use (by simpa using huse)

/-- The registrations of inputs are in time after others of inputs: all of them are at position 0,
where each input is produced before it is held. -/
theorem timelyAfter_inputCalls (names : List String)
    (hproduced : ∀ ident place, Produced done ident place → place ≤ 0)
    (huses : ∀ use ∈ usesOf done, Produced done use.ident 0) :
    BuildCall.TimelyAfter done (names.flatMap Graph.inputCalls) := by
  induction names generalizing done with
  | nil => trivial
  | cons name rest ih =>
    refine ⟨⟨hproduced, fun use huse hident ↦ .inr (hident ▸ huses use huse)⟩, ?_⟩
    show BuildCall.TimelyAfter (done ++ [.produce name 0] ++ [.futureUse ⟨none, 0⟩ name]) _
    rw [List.append_assoc]
    refine ih ?_ ?_
    · intro ident place hplace
      rcases produced_append.mp hplace with hplace | hplace
      · exact hproduced ident place hplace
      · simp at hplace
        exact le_of_eq hplace.2.symm
    · intro use huse
      rw [usesOf_append, List.mem_append] at huse
      rw [produced_append]
      rcases huse with huse | huse
      · exact .inl (huses use huse)
      · obtain rfl : use = ⟨sanitize name, 0⟩ := by simpa using huse
        exact .inr (by simp)

/-- The registrations of a node are in time after others that are not past its index. -/
theorem timelyAfter_nodeCalls (graph : Graph) (node : Node) {index : Nat}
    (hdone : NotPast done index) : BuildCall.TimelyAfter done (graph.nodeCalls node index) := by
  have hreads : NotPast (done ++ (node.inputs.filter fun name ↦ !graph.isConstant name).map
      (BuildCall.futureUse ⟨some node.id, index⟩)) index := by
    refine hdone.append ⟨fun ident place hplace ↦ absurd hplace (produced_futureUses _ _), ?_⟩
    intro use huse
    rw [usesOf_futureUses] at huse
    obtain ⟨name, _, rfl⟩ := List.mem_map.mp huse
    exact le_refl _
  rw [Graph.nodeCalls, timelyAfter_append]
  refine ⟨timelyAfter_futureUses _ _, timelyAfter_produces ?_ ?_ _⟩
  · exact fun ident place hplace ↦ (hreads.1 ident place hplace).trans (by omega)
  · exact fun use huse ↦ (hreads.2 use huse).trans_lt (by omega)

theorem notPast_nodeCalls (graph : Graph) (node : Node) (index : Nat) :
    NotPast (graph.nodeCalls node index) ((index : Int) + 1) := by
  rw [Graph.nodeCalls]
  refine NotPast.append ⟨fun ident place hplace ↦ absurd hplace (produced_futureUses _ _), ?_⟩
    ⟨fun ident place hplace ↦ le_of_eq ((produced_produces _).mp hplace).2, ?_⟩
  · intro use huse
    rw [usesOf_futureUses] at huse
    obtain ⟨name, _, rfl⟩ := List.mem_map.mp huse
    show (index : Int) ≤ index + 1
    omega
  · intro use huse
    rw [usesOf_produces] at huse
    simp at huse

/-- The registrations of nodes from an index on are in time after others that are not past it. -/
theorem timelyAfter_nodes (graph : Graph) (nodes : List Node) {index : Nat}
    (hdone : NotPast done index) :
    BuildCall.TimelyAfter done
      ((nodes.zipIdx index).flatMap fun entry ↦ graph.nodeCalls entry.1 entry.2) := by
  induction nodes generalizing done index with
  | nil => trivial
  | cons node rest ih =>
    rw [List.zipIdx_cons, List.flatMap_cons, timelyAfter_append]
    refine ⟨timelyAfter_nodeCalls graph node hdone, ih ?_⟩
    show NotPast _ ((index : Int) + 1)
    exact (hdone.mono (by omega)).append (notPast_nodeCalls graph node index)

theorem notPast_inputCalls (names : List String) : NotPast (names.flatMap Graph.inputCalls) 0 := by
  induction names with
  | nil =>
    exact ⟨fun ident place hplace ↦ absurd hplace produced_nil, fun use huse ↦ by simp at huse⟩
  | cons name rest ih =>
    rw [List.flatMap_cons]
    refine NotPast.append ⟨fun ident place hplace ↦ ?_, fun use huse ↦ ?_⟩ ih
    · simp [Graph.inputCalls] at hplace
      exact le_of_eq hplace.2.symm
    · obtain rfl : use = ⟨sanitize name, 0⟩ := by simpa [Graph.inputCalls] using huse
      exact le_refl _

/-- Every producer among the registrations of a graph is in time. -/
theorem Graph.timelyAfter_buildCalls (graph : Graph) :
    BuildCall.TimelyAfter [] graph.buildCalls := by
  rw [Graph.buildCalls, timelyAfter_append, timelyAfter_append]
  refine ⟨⟨timelyAfter_inputCalls _ ?_ ?_, ?_⟩, timelyAfter_futureUses _ _⟩
  · exact fun ident place hplace ↦ absurd hplace produced_nil
  · exact fun use huse ↦ by simp at huse
  · exact timelyAfter_nodes graph graph.nodes (notPast_inputCalls graph.inputs)

/-- The registrations of a graph produce an identifier at the positions that the graph does. -/
theorem produced_buildCalls {graph : Graph} {ident : String} {place : Int} :
    Produced graph.buildCalls ident place ↔ place ∈ graph.producedAt ident := by
  rw [Graph.buildCalls, produced_append, produced_append, Graph.mem_producedAt_iff,
    or_iff_left (produced_futureUses _ _), produced_flatMap, produced_flatMap]
  refine or_congr ?_ ?_
  · simp only [Graph.inputCalls, produced_cons_produce, produced_cons_futureUse, produced_nil,
      or_false]
    constructor
    · rintro ⟨name, hname, hident, rfl⟩
      exact ⟨rfl, name, hname, hident⟩
    · rintro ⟨rfl, name, hname, hident⟩
      exact ⟨name, hname, hident, rfl⟩
  · simp only [Graph.nodeCalls, produced_append, produced_futureUses, false_or, produced_produces]
    constructor
    · rintro ⟨⟨node, index⟩, hentry, hident, hplace⟩
      exact ⟨index, node, List.mem_zipIdx_iff_getElem?.mp hentry, hident, hplace⟩
    · rintro ⟨index, node, hnode, hident, hplace⟩
      exact ⟨(node, index), List.mem_zipIdx_iff_getElem?.mpr hnode, hident, hplace⟩

theorem usesOf_flatMap {α : Type} (items : List α) (made : α → List BuildCall) :
    usesOf (items.flatMap made) = items.flatMap fun item ↦ usesOf (made item) := by
  induction items with
  | nil => rfl
  | cons item rest ih => rw [List.flatMap_cons, usesOf_append, ih, List.flatMap_cons]

/-- The uses that a graph registers are its reads, the holds of its inputs, and the returned
constants. -/
theorem usesOf_buildCalls_perm (graph : Graph) :
    (usesOf graph.buildCalls).Perm (graph.reads ++ (graph.holds ++ graph.returnedConstants)) := by
  have hholds : usesOf (graph.inputs.flatMap Graph.inputCalls) = graph.holds := by
    rw [usesOf_flatMap, Graph.holds]
    exact List.flatMap_pure_eq_map _ _
  have hnodes : usesOf (graph.nodes.zipIdx.flatMap fun entry ↦ graph.nodeCalls entry.1 entry.2) =
      graph.nodes.zipIdx.flatMap fun entry ↦ graph.readsAt entry.2 entry.1.inputs := by
    rw [usesOf_flatMap]
    congr 1
    funext entry
    rw [Graph.nodeCalls, usesOf_append, usesOf_futureUses, usesOf_produces, List.append_nil]
    rfl
  have houtputs : (usesOf (graph.outputs.map (BuildCall.futureUse graph.returnSite))).Perm
      (graph.readsAt graph.nodes.length graph.outputs ++ graph.returnedConstants) := by
    rw [usesOf_futureUses, Graph.readsAt, Graph.returnedConstants, ← List.map_append]
    refine List.Perm.map _ (List.Perm.trans ?_ List.perm_append_comm)
    exact (List.filter_append_perm graph.isConstant graph.outputs).symm
  rw [Graph.buildCalls, usesOf_append, usesOf_append, hholds, hnodes, Graph.reads]
  refine (houtputs.append_left _).trans ?_
  rw [List.append_assoc graph.holds, ← List.append_assoc _ (graph.readsAt _ _)]
  exact List.perm_append_comm_assoc _ _ _

end Registrations

end Handover
