import Handover.Proofs.Computation
import Handover.Proofs.Program.Registration

/-!
# The first walk

Made in time on a fresh ledger, registrations of producers are never refused (`Reflects.produce`),
and the ledger reflects what has been registered so far (`Ledger.Reflects`). The first walk of a
graph stops at the first registered use that resolves to no generation of the graph
(`Graph.firstUnresolved?`, `buildLedger_eq_error`). When there is no such use it leaves a ledger
that resolves uses as the graph does and owes the reads of the graph, the holds of its inputs and
its returned constants (`buildLedger_eq_ok`).
-/

set_option autoImplicit false
set_option relaxedAutoImplicit false

namespace Handover

/-! ### The ledger of the first walk -/

/-- A ledger that is being built reflects the registrations made so far. -/
structure Ledger.Reflects (ledger : Ledger) (calls : List BuildCall) : Prop where
  phase : ledger.phase = .building
  owes : ledger.Owes (usesOf calls)
  positions : ∀ ident place, place ∈ ledger.positionsOf ident ↔ Produced calls ident place
  last : ∀ place, ledger.lastProduced = some place → ∃ ident, place ∈ ledger.positionsOf ident

section Walk

variable {ledger : Ledger} {done todo : List BuildCall} {name : String}

theorem reflects_fresh (log : Option (List Ledger.Event)) : (Ledger.fresh log).Reflects [] where
  phase := rfl
  owes := Ledger.owes_fresh log
  positions := fun ident place ↦ by simp
  last := fun place hplace ↦ by cases hplace

/-- A producer that is in time is not refused. -/
theorem Ledger.Reflects.produce (hreflects : ledger.Reflects done) {position : Int}
    (htimely : BuildCall.Timely done name position) :
    ∃ next, ledger.produce name position = .ok next ∧
      next.Reflects (done ++ [.produce name position]) := by
  have huses : usesOf (done ++ [.produce name position]) = usesOf done := by simp [usesOf_append]
  by_cases hmem : position ∈ ledger.positionsOf (sanitize name)
  · refine ⟨ledger, Ledger.produce_of_mem hreflects.phase hmem, hreflects.phase,
      huses ▸ hreflects.owes, ?_, hreflects.last⟩
    intro ident place
    rw [hreflects.positions, produced_append, produced_cons_produce, or_iff_left produced_nil]
    refine (or_iff_left_of_imp ?_).symm
    rintro ⟨rfl, rfl⟩
    exact (hreflects.positions _ _).mp hmem
  · have hlast : ∀ last, ledger.lastProduced = some last → last ≤ position := by
      intro last hproduced
      obtain ⟨ident, hplace⟩ := hreflects.last last hproduced
      exact htimely.1 ident last ((hreflects.positions ident last).mp hplace)
    obtain ⟨next, hnext, hphase, hnextLast, hpositions, hpending⟩ :=
      Ledger.produce_of_not_mem hreflects.phase hmem hlast
    have hgenerations : ∀ place ∈ ledger.positionsOf (sanitize name), place < position := by
      intro place hplace
      refine lt_of_le_of_ne (htimely.1 _ _ ((hreflects.positions _ _).mp hplace)) ?_
      rintro rfl
      exact hmem hplace
    have hbefore : ∀ use ∈ usesOf done, use.ident = sanitize name → use.position < position := by
      intro use huse hident
      exact (htimely.2 use huse hident).resolve_right fun hproduced ↦
        hmem ((hreflects.positions _ _).mpr hproduced)
    refine ⟨next, hnext, hphase, ?_, ?_, ?_⟩
    · rw [huses]
      exact hreflects.owes.produce hpositions hpending hgenerations hbefore
    · intro ident place
      rw [hpositions, produced_append, produced_cons_produce, or_iff_left produced_nil,
        ← hreflects.positions]
      by_cases hident : ident = sanitize name
      · rw [if_pos hident, List.mem_append, List.mem_singleton]
        exact or_congr_right ⟨fun h ↦ ⟨hident.symm, h.symm⟩, fun h ↦ h.2.symm⟩
      · rw [if_neg hident]
        exact (or_iff_left fun h ↦ hident h.1.symm).symm
    · intro place hplace
      rw [hnextLast] at hplace
      obtain rfl := Option.some.inj hplace
      exact ⟨sanitize name, by rw [hpositions, if_pos rfl]; simp⟩

/-- A use is registered when a generation is there that it resolves to. -/
theorem Ledger.Reflects.futureUse (hreflects : ledger.Reflects done) {site : Site} {place : Int}
    (horigin : ledger.origin ⟨sanitize name, site.position⟩ = some place) :
    ∃ next, ledger.futureUse name site.position = .ok next ∧
      next.Reflects (done ++ [.futureUse site name]) := by
  obtain ⟨next, hnext, hsame, hpending⟩ :=
    Ledger.futureUse_of_origin hreflects.phase hreflects.owes.ordered horigin
  refine ⟨next, hnext, hsame.phase.trans hreflects.phase, ?_, ?_, ?_⟩
  · rw [usesOf_append]
    exact (hreflects.owes.futureUse hsame horigin hpending).perm
      (List.perm_append_singleton _ _).symm
  · intro ident position
    rw [hsame.positionsOf, hreflects.positions, produced_append]
    simp
  · intro position hposition
    obtain ⟨ident, hmem⟩ := hreflects.last position (hsame.lastProduced ▸ hposition)
    exact ⟨ident, by rwa [hsame.positionsOf]⟩

/-- How registrations end on a ledger that reflects earlier ones: all of them are made, or they stop
at a use that nothing made before it is visible for. -/
def BuildCall.Walks (graphName : String) (ledger : Ledger) (done todo : List BuildCall) : Prop :=
  (∃ final, todo.forM (BuildCall.perform graphName) ledger = (.ok (), final) ∧
    final.Reflects (done ++ todo)) ∨
  ∃ before site name after final, todo = before ++ .futureUse site name :: after ∧
    todo.forM (BuildCall.perform graphName) ledger =
      (.error (Bookkeeping.refusalError graphName site
        (.fault (.unknown (sanitize name) (some site.position)))), final) ∧
    final.Reflects (done ++ before) ∧ final.origin (Site.use (site, name)) = none

/-- Once a registration is made, the others follow it. -/
theorem walks_cons {graphName : String} {call : BuildCall} {next : Ledger}
    (hnext : call.perform graphName ledger = (.ok (), next))
    (hrest : BuildCall.Walks graphName next (done ++ [call]) todo) :
    BuildCall.Walks graphName ledger done (call :: todo) := by
  have hrun : (call :: todo).forM (BuildCall.perform graphName) ledger =
      todo.forM (BuildCall.perform graphName) next := by
    rw [List.forM_eq_forM, List.forM_cons, Stateful.run_bind, hnext]
  rw [BuildCall.Walks, hrun]
  rcases hrest with ⟨final, hfinal, hall⟩ | ⟨before, site, name, after, final, rfl, hfinal, hbefore,
    horigin⟩
  · exact .inl ⟨final, hfinal, by simpa using hall⟩
  · exact .inr ⟨call :: before, site, name, after, final, rfl, hfinal,
      by simpa using hbefore, horigin⟩

/-- Registrations that are in time are all made, or stop at a use. -/
theorem Ledger.Reflects.walks (graphName : String) (hreflects : ledger.Reflects done)
    (htimely : BuildCall.TimelyAfter done todo) : BuildCall.Walks graphName ledger done todo := by
  induction todo generalizing ledger done with
  | nil => exact .inl ⟨ledger, rfl, by rwa [List.append_nil]⟩
  | cons call rest ih =>
    cases call with
    | produce name position =>
      obtain ⟨next, hnext, hreached⟩ := hreflects.produce htimely.1
      refine walks_cons ?_ (ih hreached htimely.2)
      simp only [BuildCall.perform, Bookkeeping.plainCall, hnext]
    | futureUse site name =>
      cases horigin : ledger.origin (Site.use (site, name)) with
      | some place =>
        obtain ⟨next, hnext, hreached⟩ := hreflects.futureUse horigin
        refine walks_cons ?_ (ih hreached htimely)
        simp only [BuildCall.perform, Bookkeeping.call, hnext]
        rfl
      | none =>
        have hrefused := Ledger.futureUse_of_origin_eq_none hreflects.phase horigin
        refine .inr ⟨[], site, name, rest, ledger, rfl, ?_, by rwa [List.append_nil], horigin⟩
        rw [List.forM_eq_forM, List.forM_cons, Stateful.run_bind]
        simp only [BuildCall.perform, Bookkeeping.call, hrefused]
        rfl

end Walk

/-! ### The uses that stop it -/

namespace Graph

variable (graph : Graph)

/-- The uses that the first walk registers, with their sites and in its order. -/
def registeredUses : List (Site × String) := graph.buildCalls.filterMap BuildCall.read?

/-- The first registered use that resolves to no generation of a graph. -/
def firstUnresolved? : Option (Site × String) :=
  graph.registeredUses.find? fun entry ↦ (graph.origin (Site.use entry)).isNone

/-- The error of a use that resolves to no generation of a graph. -/
def unresolvedError (entry : Site × String) : Error :=
  .generation ⟨graph.name, entry.1.node.map Int.ofNat, entry.1.position,
    .unknown (sanitize entry.2) (some entry.1.position)⟩

end Graph

section Outcome

variable {graph : Graph} {ledger : Ledger} {before after : List BuildCall}

/-- A ledger that reflects all registrations of a graph resolves uses as the graph does. -/
theorem Ledger.Reflects.origin_eq (hreflects : ledger.Reflects graph.buildCalls) (use : Use) :
    ledger.origin use = graph.origin use := by
  ext place
  rw [hreflects.owes.ordered.origin_eq_some_iff, Graph.origin_eq_some_iff]
  simp only [hreflects.positions, produced_buildCalls]

/-- A use that has been registered resolves to a generation of the graph. -/
theorem isSome_origin_of_reflects (hsplit : graph.buildCalls = before ++ after)
    (hreflects : ledger.Reflects before) {use : Use} (huse : use ∈ usesOf before) :
    (graph.origin use).isSome := by
  obtain ⟨place, horigin⟩ := hreflects.owes.reachable use huse
  obtain ⟨⟨hmem, hle⟩, _⟩ := hreflects.owes.ordered.origin_eq_some_iff.mp horigin
  rw [Option.isSome_iff_ne_none]
  intro hnone
  refine absurd (Graph.origin_eq_none_iff.mp hnone place ?_) (not_lt.mpr hle)
  rw [← produced_buildCalls, hsplit, produced_append]
  exact .inl ((hreflects.positions _ _).mp hmem)

/-- A use that resolves to nothing when its turn comes resolves to no generation of the graph: all
generations that are registered after it are later. -/
theorem origin_eq_none_of_reflects {site : Site} {name : String}
    (hsplit : graph.buildCalls = before ++ .futureUse site name :: after)
    (hreflects : ledger.Reflects before) (horigin : ledger.origin (Site.use (site, name)) = none) :
    graph.origin (Site.use (site, name)) = none := by
  have hvisible : ∀ place, Produced before (sanitize name) place → site.position < place :=
    fun place hplace ↦
      Ledger.origin_eq_none_iff.mp horigin place ((hreflects.positions _ _).mpr hplace)
  have htimely := graph.timelyAfter_buildCalls
  rw [hsplit, timelyAfter_append, List.nil_append] at htimely
  rw [Graph.origin_eq_none_iff]
  intro place hplace
  rw [← produced_buildCalls, hsplit, produced_append, produced_cons_futureUse] at hplace
  rcases hplace with hplace | hplace
  · exact hvisible place hplace
  · have huse : Site.use (site, name) ∈ usesOf (before ++ [.futureUse site name]) := by
      rw [usesOf_append]
      exact List.mem_append_right _ (List.mem_cons_self ..)
    have hlater : BuildCall.TimelyAfter (before ++ [.futureUse site name]) after := htimely.2
    rcases lt_or_produced_of_timelyAfter hlater huse hplace with hlt | hearlier
    · exact hlt
    · rw [produced_append, produced_cons_futureUse, or_iff_left produced_nil] at hearlier
      exact hvisible place hearlier

/-- Assumes: registrations of a graph that have been made, up to one of them. -/
theorem reflects_of_forM (hsplit : graph.buildCalls = before ++ after)
    {log : Option (List Ledger.Event)}
    (hmade : before.forM (BuildCall.perform graph.name) (.fresh log) = (.ok (), ledger)) :
    ledger.Reflects before := by
  have htimely := graph.timelyAfter_buildCalls
  rw [hsplit, timelyAfter_append] at htimely
  rcases (reflects_fresh log).walks graph.name htimely.1 with
    ⟨final, hfinal, hreflects⟩ | ⟨_, _, _, _, _, _, hfinal, _⟩
  · rw [hfinal] at hmade
    cases hmade
    exact hreflects
  · rw [hfinal] at hmade
    cases hmade

/-- The first walk either leaves a ledger that reflects all registrations of a graph, or stops at
the first use that resolves to no generation of it. -/
theorem forM_buildCalls (graph : Graph) (log : Option (List Ledger.Event)) :
    match graph.firstUnresolved? with
    | none => ∃ final, graph.buildCalls.forM (BuildCall.perform graph.name) (.fresh log) =
        (.ok (), final) ∧ final.Reflects graph.buildCalls
    | some entry => ∃ final, graph.buildCalls.forM (BuildCall.perform graph.name) (.fresh log) =
        (.error (graph.unresolvedError entry), final) := by
  rcases (reflects_fresh log).walks graph.name graph.timelyAfter_buildCalls with
    ⟨final, hfinal, hreflects⟩ |
      ⟨before, site, name, after, final, hsplit, hfinal, hreflects, horigin⟩
  · have hnone : graph.firstUnresolved? = none := by
      rw [Graph.firstUnresolved?, List.find?_eq_none]
      intro entry hentry
      have hsome := isSome_origin_of_reflects (List.append_nil _).symm hreflects
        (List.mem_map_of_mem hentry)
      simpa [Option.isSome_iff_ne_none] using hsome
    rw [hnone]
    exact ⟨final, hfinal, hreflects⟩
  · have hsome : graph.firstUnresolved? = some (site, name) := by
      rw [Graph.firstUnresolved?, List.find?_eq_some_iff_append]
      refine ⟨?_, before.filterMap BuildCall.read?, after.filterMap BuildCall.read?, ?_, ?_⟩
      · rw [origin_eq_none_of_reflects hsplit hreflects horigin]
        rfl
      · rw [Graph.registeredUses, hsplit, List.filterMap_append]
        rfl
      · intro entry hentry
        have hentrySome := isSome_origin_of_reflects hsplit hreflects (List.mem_map_of_mem hentry)
        simpa using hentrySome
    rw [hsome]
    exact ⟨final, hfinal⟩

/-- Every registered use of a graph without unresolved ones resolves to a generation. -/
theorem exists_origin_of_resolved (hresolved : graph.firstUnresolved? = none) {use : Use}
    (huse : use ∈ usesOf graph.buildCalls) : ∃ place, graph.origin use = some place := by
  obtain ⟨entry, hentry, rfl⟩ := List.mem_map.mp huse
  have hsome := List.find?_eq_none.mp hresolved entry hentry
  rw [Option.isNone_iff_eq_none] at hsome
  exact Option.ne_none_iff_exists'.mp hsome

theorem buildLedger_eq_ok (log : Option (List Ledger.Event))
    (hresolved : graph.firstUnresolved? = none) :
    ∃ final, buildLedger graph (.fresh log) = (.ok (), final) ∧ final.phase = .emitting ∧
      (∀ use, final.origin use = graph.origin use) ∧
      final.Owes (graph.reads ++ (graph.holds ++ graph.returnedConstants)) := by
  have hrun := forM_buildCalls graph log
  rw [hresolved] at hrun
  obtain ⟨reached, hreached, hreflects⟩ := hrun
  refine ⟨{ reached with phase := .emitting }, ?_, rfl, hreflects.origin_eq, ?_⟩
  · show ((_ : Bookkeeping Unit) >>= fun _ ↦ _) _ = _
    rw [Stateful.run_bind, hreached]
    show Bookkeeping.plainCall Ledger.beginEmit reached = _
    rw [Bookkeeping.plainCall, Ledger.beginEmit_of_building hreflects.phase]
  · have howes := hreflects.owes.perm (usesOf_buildCalls_perm graph)
    exact ⟨howes.ordered, howes.reachable, howes.pending⟩

theorem buildLedger_eq_error (log : Option (List Ledger.Event)) {entry : Site × String}
    (hunresolved : graph.firstUnresolved? = some entry) :
    ∃ final, buildLedger graph (.fresh log) = (.error (graph.unresolvedError entry), final) := by
  have hrun := forM_buildCalls graph log
  rw [hunresolved] at hrun
  obtain ⟨final, hfinal⟩ := hrun
  refine ⟨final, ?_⟩
  show ((_ : Bookkeeping Unit) >>= fun _ ↦ _) _ = _
  rw [Stateful.run_bind, hfinal]

/-- Assumes: a first walk that is completed. -/
theorem owes_of_buildLedger {log : Option (List Ledger.Event)}
    (hbuilt : buildLedger graph (.fresh log) = (.ok (), ledger)) :
    ledger.phase = .emitting ∧ (∀ use, ledger.origin use = graph.origin use) ∧
      ledger.Owes (graph.reads ++ (graph.holds ++ graph.returnedConstants)) := by
  cases hfirst : graph.firstUnresolved? with
  | some entry =>
    obtain ⟨_, hfailed⟩ := buildLedger_eq_error log hfirst
    rw [hfailed] at hbuilt
    cases hbuilt
  | none =>
    obtain ⟨final, hfinal, hkept⟩ := buildLedger_eq_ok log hfirst
    rw [hfinal] at hbuilt
    cases hbuilt
    exact hkept

end Outcome

end Handover
