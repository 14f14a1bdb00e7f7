import Handover.Proofs.Ledger.Lookup

/-!
# Accounts of a ledger

What each call does to a ledger, said through positions and pending uses (`produce_of_not_mem`,
`futureUse_of_origin`, `resolve_of_pending`), and the account that the calls keep: a ledger owes a
list of uses when the pending uses of every generation are exactly those of the list that resolve to
it (`Ledger.Owes`). Registering a producer after all earlier uses of its identifier leaves the
account as it is (`Owes.produce`), registering a use adds it (`Owes.futureUse`), and resolving the
first use of the account removes it and hands the value over exactly when no other use of the
account resolves to the same generation (`Owes.resolve`). A ledger that owes nothing has no
outstanding use (`Owes.outstanding_eq_nil`).
-/

set_option autoImplicit false
set_option relaxedAutoImplicit false

namespace Handover

/-- Whether two uses resolve to the same generation. -/
def Use.Shares (origin : Use → Option Int) (first second : Use) : Prop :=
  first.ident = second.ident ∧ origin first = origin second

instance (origin : Use → Option Int) (first second : Use) :
    Decidable (Use.Shares origin first second) :=
  inferInstanceAs (Decidable (_ ∧ _))

/-- The decision for a use before some later ones: it hands the value over when none of them
resolves to the same generation. -/
def Use.decision (origin : Use → Option Int) (use : Use) (later : List Use) : Decision where
  ownership := if ∃ other ∈ later, Use.Shares origin other use then .duplicate else .move
  name := use.ident
  position := use.position

theorem isMove_decision_iff {origin : Use → Option Int} {use : Use} {later : List Use} :
    (use.decision origin later).isMove = true ↔
      ¬ ∃ other ∈ later, Use.Shares origin other use := by
  unfold Decision.isMove Use.decision
  split_ifs with hshared
  · simpa using hshared
  · simpa using hshared

/-- The use that a decision is for. -/
def Decision.use (decision : Decision) : Use := ⟨decision.name, decision.position⟩

/-- The decisions for some uses in order, each before the others and some later uses. -/
def Use.decisions (origin : Use → Option Int) (later : List Use) : List Use → List Decision
  | [] => []
  | use :: rest => use.decision origin (rest ++ later) :: decisions origin later rest

section Decisions

variable {origin : Use → Option Int} {later : List Use}

theorem decisions_append (uses more : List Use) :
    Use.decisions origin later (uses ++ more) =
      Use.decisions origin (more ++ later) uses ++ Use.decisions origin later more := by
  induction uses with
  | nil => rfl
  | cons use rest ih =>
    rw [List.cons_append, Use.decisions, ih, Use.decisions, List.cons_append, List.append_assoc]

theorem map_use_decisions (uses : List Use) :
    (Use.decisions origin later uses).map Decision.use = uses := by
  induction uses with
  | nil => rfl
  | cons use rest ih =>
    rw [Use.decisions, List.map_cons, ih]
    rfl

end Decisions

namespace Ledger

variable {ledger next : Ledger}

/-- Two ledgers that differ in pending uses and in their logs only. -/
structure SameGenerations (ledger next : Ledger) : Prop where
  phase : next.phase = ledger.phase
  lastProduced : next.lastProduced = ledger.lastProduced
  positionsOf : ∀ ident, next.positionsOf ident = ledger.positionsOf ident

theorem SameGenerations.origin (hsame : SameGenerations ledger next) (use : Use) :
    next.origin use = ledger.origin use :=
  origin_congr (hsame.positionsOf use.ident)

theorem SameGenerations.ordered (hsame : SameGenerations ledger next) (hordered : ledger.Ordered) :
    next.Ordered := by
  intro ident
  rw [hsame.positionsOf]
  exact hordered ident

theorem SameGenerations.refl (ledger : Ledger) : SameGenerations ledger ledger :=
  ⟨rfl, rfl, fun _ ↦ rfl⟩

theorem SameGenerations.trans {last : Ledger} (hsame : SameGenerations ledger next)
    (hlast : SameGenerations next last) : SameGenerations ledger last :=
  ⟨hlast.phase.trans hsame.phase, hlast.lastProduced.trans hsame.lastProduced,
    fun ident ↦ (hlast.positionsOf ident).trans (hsame.positionsOf ident)⟩

theorem sameGenerations_setPending (ident : String) (position : Int) (pending : Nat)
    (event : Event) :
    SameGenerations ledger ((ledger.setPending ident position pending).record event) :=
  ⟨rfl, rfl, fun other ↦ by simp⟩

/-! ### What a call does -/

section Calls

variable {name : String} {position : Int}

theorem require_of_phase {phase : Phase} (hphase : ledger.phase = phase) (operation : String)
    (name : String) (position : Option Int) :
    ledger.require phase operation name position = .ok () := if_pos hphase

theorem any_position_iff {ident : String} :
    ((ledger.generationsOf ident).any fun generation ↦ generation.position = position) = true ↔
      position ∈ ledger.positionsOf ident := by
  simp [positionsOf]

/-- The ledger with a new generation of an identifier, without the event. -/
def extended (ledger : Ledger) (ident : String) (position : Int) : Ledger :=
  { ledger with
    producers := ledger.producers.insert ident (ledger.generationsOf ident ++ [⟨position, 0⟩])
    lastProduced := some position }

theorem generationsOf_extended_self (ident : String) (position : Int) :
    (extended ledger ident position).generationsOf ident =
      ledger.generationsOf ident ++ [⟨position, 0⟩] := by
  simp [extended, generationsOf]

theorem generationsOf_extended_of_ne {ident other : String} (hne : other ≠ ident)
    (position : Int) :
    (extended ledger ident position).generationsOf other = ledger.generationsOf other := by
  simp [extended, generationsOf, OrderedMap.find?_insert_of_ne _ hne]

/-- Registering a generation again changes nothing. -/
theorem produce_of_mem (hphase : ledger.phase = .building)
    (hmem : position ∈ ledger.positionsOf (sanitize name)) :
    ledger.produce name position = .ok ledger := by
  unfold produce
  rw [require_of_phase hphase]
  simp only [any_position_iff.mpr hmem]
  rfl

/-- Registering a new generation that is not earlier than the last one puts it at the end. -/
theorem produce_of_not_mem (hphase : ledger.phase = .building)
    (habsent : position ∉ ledger.positionsOf (sanitize name))
    (hlast : ∀ last, ledger.lastProduced = some last → last ≤ position) :
    ∃ next, ledger.produce name position = .ok next ∧ next.phase = .building ∧
      next.lastProduced = some position ∧
      (∀ ident, next.positionsOf ident =
        if ident = sanitize name then ledger.positionsOf ident ++ [position]
        else ledger.positionsOf ident) ∧
      ∀ ident place, next.pendingAt ident place = ledger.pendingAt ident place := by
  have hany : ((ledger.generationsOf (sanitize name)).any fun generation ↦
      generation.position = position) = false := by
    rw [← Bool.not_eq_true, any_position_iff]
    exact habsent
  refine ⟨(extended ledger (sanitize name) position).record
    ⟨.produce, sanitize name, position, 0, none⟩, ?_, hphase, rfl, ?_, ?_⟩
  · unfold produce
    rw [require_of_phase hphase]
    simp only [hany]
    cases hproduced : ledger.lastProduced with
    | none => rfl
    | some last =>
      have hnot : ¬ position < last := not_lt.mpr (hlast last hproduced)
      simp only [hnot]
      rfl
  · intro ident
    rw [positionsOf_record, positionsOf]
    split_ifs with hident
    · rw [hident, generationsOf_extended_self, List.map_append]
      rfl
    · rw [generationsOf_extended_of_ne hident]
      rfl
  · intro ident place
    rw [pendingAt_record, pendingAt]
    by_cases hident : ident = sanitize name
    · rw [hident, generationsOf_extended_self, pendingIn_append_singleton _ habsent]
      split_ifs with hplace
      · rw [hplace, pendingAt, pendingIn_of_not_mem habsent]
      · rfl
    · rw [generationsOf_extended_of_ne hident]
      rfl

theorem futureUse_of_origin_eq_none (hphase : ledger.phase = .building)
    (horigin : ledger.origin ⟨sanitize name, position⟩ = none) :
    ledger.futureUse name position =
      .error (.fault (.unknown (sanitize name) (some position))) := by
  unfold futureUse
  rw [require_of_phase hphase]
  have hvisible := visible_of_origin_eq_none horigin
  simp only [hvisible]
  rfl

/-- Registering a use adds one to the pending uses of the generation that it resolves to. -/
theorem futureUse_of_origin (hphase : ledger.phase = .building) (hordered : ledger.Ordered)
    {place : Int} (horigin : ledger.origin ⟨sanitize name, position⟩ = some place) :
    ∃ next, ledger.futureUse name position = .ok next ∧ SameGenerations ledger next ∧
      ∀ ident other, next.pendingAt ident other =
        ledger.pendingAt ident other + if ident = sanitize name ∧ other = place then 1 else 0 := by
  obtain ⟨generation, hvisible, rfl, hmem⟩ := exists_visible_of_origin horigin
  have hpending : ledger.pendingAt (sanitize name) generation.position = generation.pending :=
    pendingIn_of_mem (hordered _) hmem
  refine ⟨_, ?_, sameGenerations_setPending (sanitize name) generation.position
    (generation.pending + 1)
    ⟨.futureUse, sanitize name, position, generation.pending + 1, none⟩, ?_⟩
  · unfold futureUse
    rw [require_of_phase hphase]
    simp only [hvisible]
    rfl
  · intro ident other
    rw [pendingAt_record, pendingAt_setPending (List.mem_map_of_mem hmem)]
    split_ifs with hcase
    · rw [hcase.1, hcase.2, hpending]
    · rfl

/-- Resolving a use takes one from the pending uses of its generation, and hands the value over when
none is left. Assumes: a pending use. -/
theorem resolve_of_pending (hphase : ledger.phase = .emitting) (hordered : ledger.Ordered)
    {place : Int} (horigin : ledger.origin ⟨sanitize name, position⟩ = some place)
    (hpending : 0 < ledger.pendingAt (sanitize name) place) :
    ∃ next, ledger.resolve name position =
        .ok (⟨if ledger.pendingAt (sanitize name) place = 1 then .move else .duplicate,
          sanitize name, position⟩, next) ∧
      SameGenerations ledger next ∧
      ∀ ident other, next.pendingAt ident other =
        ledger.pendingAt ident other - if ident = sanitize name ∧ other = place then 1 else 0 := by
  obtain ⟨generation, hvisible, rfl, hmem⟩ := exists_visible_of_origin horigin
  have hfound : ledger.pendingAt (sanitize name) generation.position = generation.pending :=
    pendingIn_of_mem (hordered _) hmem
  rw [hfound] at hpending ⊢
  have hexhausted : generation.isExhausted = false := by
    simpa [Generation.isExhausted] using Nat.pos_iff_ne_zero.mp hpending
  have hownership : (if generation.pending - 1 = 0 then Ownership.move else .duplicate) =
      if generation.pending = 1 then .move else .duplicate := by
    congr 1
    exact propext ⟨fun h ↦ by omega, fun h ↦ by omega⟩
  refine ⟨_, ?_, sameGenerations_setPending (sanitize name) generation.position
    (generation.pending - 1) ⟨.use, sanitize name, position, (generation.pending - 1 : Nat),
      some (if generation.pending - 1 = 0 then .move else .duplicate)⟩, ?_⟩
  · unfold resolve
    rw [require_of_phase hphase]
    simp only [hvisible]
    rw [← hownership]
    show (if generation.isExhausted then _ else _) = _
    rw [hexhausted]
    rfl
  · intro ident other
    rw [pendingAt_record, pendingAt_setPending (List.mem_map_of_mem hmem)]
    split_ifs with hcase
    · rw [hcase.1, hcase.2, hfound]
    · rfl

theorem beginEmit_of_building (hphase : ledger.phase = .building) :
    ledger.beginEmit = .ok { ledger with phase := .emitting } := by
  unfold beginEmit
  rw [require_of_phase hphase]
  rfl

end Calls

/-! ### The account -/

/-- The pending uses of a ledger are those of a list: every generation has as many as there are uses
in the list that resolve to it, and every use in the list resolves to a generation. -/
structure Owes (ledger : Ledger) (uses : List Use) : Prop where
  ordered : ledger.Ordered
  reachable : ∀ use ∈ uses, ∃ place, ledger.origin use = some place
  pending : ∀ ident place, ledger.pendingAt ident place =
    uses.countP fun use ↦ use.ident = ident ∧ ledger.origin use = some place

section Account

variable {uses rest : List Use} {use : Use}

theorem owes_fresh (log : Option (List Event)) : (fresh log).Owes [] :=
  ⟨ordered_fresh log, by simp, fun _ _ ↦ rfl⟩

theorem Owes.perm (howes : ledger.Owes uses) {others : List Use} (hperm : uses.Perm others) :
    ledger.Owes others :=
  ⟨howes.ordered, fun use huse ↦ howes.reachable use (hperm.mem_iff.mpr huse),
    fun ident place ↦ (howes.pending ident place).trans (hperm.countP_eq _)⟩

/-- A new generation takes no use from an earlier one. Assumes: the position of the new generation
is after every other generation and every use of its identifier. -/
theorem Owes.produce (howes : ledger.Owes uses) {ident : String} {position : Int}
    (hpositions : ∀ other, next.positionsOf other =
      if other = ident then ledger.positionsOf other ++ [position] else ledger.positionsOf other)
    (hpending : ∀ other place, next.pendingAt other place = ledger.pendingAt other place)
    (hgenerations : ∀ place ∈ ledger.positionsOf ident, place < position)
    (huses : ∀ use ∈ uses, use.ident = ident → use.position < position) :
    next.Owes uses := by
  have horigin : ∀ use ∈ uses, next.origin use = ledger.origin use := by
    intro use huse
    rw [origin_eq_find?, origin_eq_find?, hpositions]
    split_ifs with hident
    · have hbefore := huses use huse hident
      simp [not_le.mpr hbefore]
    · rfl
  refine ⟨?_, ?_, ?_⟩
  · intro other
    rw [hpositions]
    split_ifs with hother
    · rw [hother, List.pairwise_append]
      exact ⟨howes.ordered ident, List.pairwise_singleton _ _, by simpa using hgenerations⟩
    · exact howes.ordered other
  · intro use huse
    rw [horigin use huse]
    exact howes.reachable use huse
  · intro other place
    rw [hpending, howes.pending]
    refine List.countP_congr fun use huse ↦ ?_
    rw [horigin use huse]

/-- Assumes: a ledger that owes some uses and in which one more is registered. -/
theorem Owes.futureUse (howes : ledger.Owes uses) (hsame : SameGenerations ledger next)
    {place : Int}
    (horigin : ledger.origin use = some place)
    (hpending : ∀ ident other, next.pendingAt ident other =
      ledger.pendingAt ident other + if ident = use.ident ∧ other = place then 1 else 0) :
    next.Owes (use :: uses) := by
  refine ⟨hsame.ordered howes.ordered, ?_, ?_⟩
  · intro other hother
    rw [hsame.origin]
    rcases List.mem_cons.mp hother with rfl | hother
    · exact ⟨place, horigin⟩
    · exact howes.reachable other hother
  · intro ident other
    simp only [hsame.origin]
    rw [hpending, howes.pending, List.countP_cons, horigin]
    congr 1
    by_cases hcase : ident = use.ident ∧ other = place
    · rw [if_pos hcase, if_pos (by simp [hcase])]
    · rw [if_neg hcase, if_neg]
      simp only [decide_eq_true_eq, Option.some.injEq]
      exact fun h ↦ hcase ⟨h.1.symm, h.2.symm⟩

/-- A ledger that owes a use before some others resolves it, with the decision for the others, and
then owes the others. -/
theorem Owes.resolve (hphase : ledger.phase = .emitting) {name : String} {position : Int}
    (howes : ledger.Owes (⟨sanitize name, position⟩ :: rest)) :
    ∃ next, ledger.resolve name position =
        .ok (Use.decision ledger.origin ⟨sanitize name, position⟩ rest, next) ∧
      SameGenerations ledger next ∧ next.Owes rest := by
  obtain ⟨place, horigin⟩ := howes.reachable _ (List.mem_cons_self ..)
  have hcount := howes.pending (sanitize name) place
  rw [List.countP_cons, if_pos (by simp [horigin])] at hcount
  obtain ⟨next, hresolve, hsame, hpending⟩ :=
    resolve_of_pending hphase howes.ordered horigin (by omega)
  refine ⟨next, ?_, hsame, hsame.ordered howes.ordered, ?_, ?_⟩
  · rw [hresolve, Use.decision]
    have hlast : ledger.pendingAt (sanitize name) place = 1 ↔
        ¬ ∃ other ∈ rest, Use.Shares ledger.origin other ⟨sanitize name, position⟩ := by
      rw [hcount, Nat.add_eq_right, List.countP_eq_zero]
      simp [Use.Shares, horigin]
    by_cases hshared : ∃ other ∈ rest, Use.Shares ledger.origin other ⟨sanitize name, position⟩
    · rw [if_pos hshared, if_neg fun h ↦ hlast.mp h hshared]
    · rw [if_neg hshared, if_pos (hlast.mpr hshared)]
  · intro other hother
    rw [hsame.origin]
    exact howes.reachable other (List.mem_cons_of_mem _ hother)
  · intro ident other
    simp only [hsame.origin]
    rw [hpending, howes.pending, List.countP_cons, horigin]
    by_cases hcase : ident = sanitize name ∧ other = place
    · simp [hcase]
    · have hhead : ¬ (sanitize name = ident ∧ place = other) := fun h ↦
        hcase ⟨h.1.symm, h.2.symm⟩
      simpa [hcase] using hhead

/-- A ledger that owes nothing has no outstanding use. -/
theorem Owes.outstanding_eq_nil (howes : ledger.Owes []) : ledger.outstanding = [] := by
  unfold outstanding
  rw [List.flatMap_eq_nil_iff]
  intro ident _
  rw [List.map_eq_nil_iff, List.filter_eq_nil_iff]
  intro generation hmem
  have hpending := howes.pending ident generation.position
  rw [pendingAt, pendingIn_of_mem (howes.ordered ident) hmem] at hpending
  simp [Generation.isExhausted, hpending]

end Account

end Ledger

end Handover
