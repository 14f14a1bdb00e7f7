import Handover.Proofs.Ledger.Calls
import Handover.Proofs.Ledger.Journal

/-!
# Names apart

Calls on one ledger about different identifiers share its phase and its mark of the last producer,
and nothing else. So a run looks to an identifier like the run of its own calls alone
(`Call.concerns`): the two ledgers agree on the identifier after every call (`Agree.write`,
`Agree.skip`), as the mark of the whole run is never before that of the own one. The only way in
which other names come in is a producer that is refused because another name was produced later.

Names count in identifier form only (`Call.Renamed`). The one place where a name appears as it was
given is the refusal of a call in the wrong phase (`Refusal.named`, `Call.Renamed.write`). Both
facts together are `names_apart`.
-/

set_option autoImplicit false
set_option relaxedAutoImplicit false

namespace Handover.Ledger

/-! ### The calls of an identifier -/

/-- The name that a call is about as it was given; the end of the building phase has none. -/
def Call.name : Call → String
  | produce name _ | futureUse name _ | resolve name _ => name
  | beginEmit => ""

/-- The identifier that a call is about, if it is about one. -/
def Call.ident? : Call → Option String
  | produce name _ | futureUse name _ | resolve name _ => some (sanitize name)
  | beginEmit => none

/-- Whether a call matters to an identifier: it is about that identifier, or about no other. -/
def Call.concerns (ident : String) (call : Call) : Bool :=
  call.ident?.all fun other ↦ other = ident

/-- The calls of a run that are about an identifier, with their answers. -/
def answersOn (ledger : Ledger) (ident : String) (calls : List Call) :
    List (Call × Except Refusal (Option Decision)) :=
  (calls.zip (ledger.answers calls)).filter fun made ↦ made.1.ident? = some ident

/-- Whether a call was refused as a producer that comes after a later one. -/
def isMisordered : Except Refusal (Option Decision) → Bool
  | .error (.misordered ..) => true
  | _ => false

/-- Whether a ledger answers every lookup of one name as another ledger answers that of another
name: its generations, the pending uses that are visible at a position, and whether it is known. -/
structure Looks (ledger other : Ledger) (name otherName : String) : Prop where
  generations : other.generations otherName = ledger.generations name
  pending : ∀ position, other.pending otherName position = ledger.pending name position
  contains : other.contains otherName = ledger.contains name

theorem answersOn_cons (ledger : Ledger) (ident : String) (call : Call) (rest : List Call) :
    ledger.answersOn ident (call :: rest) =
      (if call.ident? = some ident then [(call, (call.write ledger).1)] else []) ++
        (call.write ledger).2.answersOn ident rest := by
  unfold answersOn
  rw [answers, List.zip_cons_cons, List.filter_cons]
  simp only [decide_eq_true_eq]
  split_ifs <;> rfl

/-! ### Ledgers that agree on an identifier -/

/-- Whether the ledger of a whole run and that of the calls of one identifier agree on it: they are
in the same phase, the identifier has the same generations in both, and the whole run has a mark no
earlier than the other one. -/
structure Agree (ident : String) (whole own : Ledger) : Prop where
  phase : own.phase = whole.phase
  found : own.producers.find? ident = whole.producers.find? ident
  mark : ∀ last, own.lastProduced = some last →
    ∃ mark, whole.lastProduced = some mark ∧ last ≤ mark

section Agree

variable {ident : String} {whole own next : Ledger} {call : Call} {answer : Option Decision}

theorem Agree.generationsOf (hagree : Agree ident whole own) :
    own.generationsOf ident = whole.generationsOf ident := by
  rw [Ledger.generationsOf, hagree.found]
  rfl

theorem Agree.positionsOf (hagree : Agree ident whole own) :
    own.positionsOf ident = whole.positionsOf ident := by
  rw [Ledger.positionsOf, hagree.generationsOf]
  rfl

theorem Agree.visible? (hagree : Agree ident whole own) (position : Int) :
    own.visible? ident position = whole.visible? ident position := by
  rw [Ledger.visible?, hagree.generationsOf]
  rfl

/-- A producer that the whole run accepts is not before the mark of the calls of its identifier. -/
theorem Agree.filter_lastProduced (hagree : Agree ident whole own) {position : Int}
    (hwhole : whole.lastProduced.filter (position < ·) = none) :
    own.lastProduced.filter (position < ·) = none := by
  rw [Option.filter_eq_none_iff] at hwhole ⊢
  intro last hlast
  obtain ⟨mark, hmark, hle⟩ := hagree.mark last hlast
  have hposition := hwhole mark hmark
  simp only [decide_eq_true_eq, not_lt] at hposition ⊢
  exact hle.trans hposition

theorem Agree.extended (hagree : Agree ident whole own) (position : Int) (event : Event) :
    Agree ident ((extended whole ident position).record event)
      ((extended own ident position).record event) where
  phase := hagree.phase
  found := by
    show (own.producers.insert ident (own.generationsOf ident ++ _)).find? ident =
      (whole.producers.insert ident (whole.generationsOf ident ++ _)).find? ident
    rw [OrderedMap.find?_insert_self, OrderedMap.find?_insert_self, hagree.generationsOf]
  mark := fun last hlast ↦ ⟨last, hlast, le_refl last⟩

theorem Agree.setPending (hagree : Agree ident whole own) (position : Int) (pending : Nat)
    (event : Event) :
    Agree ident ((whole.setPending ident position pending).record event)
      ((own.setPending ident position pending).record event) where
  phase := hagree.phase
  found := by
    show (own.producers.insert ident ((own.generationsOf ident).map _)).find? ident =
      (whole.producers.insert ident ((whole.generationsOf ident).map _)).find? ident
    rw [OrderedMap.find?_insert_self, OrderedMap.find?_insert_self, hagree.generationsOf]
  mark := hagree.mark

/-- A call about the identifier has the same answer in both ledgers, which agree on it afterwards,
unless the whole run refuses it as a misordered producer. -/
theorem Agree.attempt (hagree : Agree ident whole own) (hident : call.ident? = some ident)
    (hordered : ∀ name position last,
      whole.attempt call ≠ .error (.misordered name position last)) :
    (∃ answer wholeNext ownNext, whole.attempt call = .ok (answer, wholeNext) ∧
        own.attempt call = .ok (answer, ownNext) ∧ Agree ident wholeNext ownNext) ∨
      ∃ refusal, whole.attempt call = .error refusal ∧ own.attempt call = .error refusal := by
  cases call with
  | beginEmit => cases hident
  | produce name position =>
    obtain rfl := Option.some.inj hident
    simp only [Ledger.attempt, produce_eq, hagree.phase, hagree.positionsOf] at hordered ⊢
    split_ifs at hordered ⊢ with hphase hmem
    · exact .inl ⟨none, whole, own, rfl, rfl, hagree⟩
    · cases hlast : whole.lastProduced.filter (position < ·) with
      | some last =>
        rw [hlast] at hordered
        exact absurd rfl (hordered _ _ _)
      | none =>
        rw [hagree.filter_lastProduced hlast]
        exact .inl ⟨none, _, _, rfl, rfl, hagree.extended position _⟩
    · exact .inr ⟨_, rfl, rfl⟩
  | futureUse name position =>
    obtain rfl := Option.some.inj hident
    simp only [Ledger.attempt, futureUse_eq, hagree.phase, hagree.visible?]
    split_ifs with hphase
    · cases whole.visible? (sanitize name) position with
      | some generation => exact .inl ⟨none, _, _, rfl, rfl, hagree.setPending _ _ _⟩
      | none => exact .inr ⟨_, rfl, rfl⟩
    · exact .inr ⟨_, rfl, rfl⟩
  | resolve name position =>
    obtain rfl := Option.some.inj hident
    simp only [Ledger.attempt, resolve_eq, hagree.phase, hagree.visible?]
    split_ifs with hphase
    · cases whole.visible? (sanitize name) position with
      | some generation =>
        by_cases hpending : generation.pending = 0
        · simp only [if_pos hpending]
          exact .inr ⟨_, rfl, rfl⟩
        · simp only [if_neg hpending]
          exact .inl ⟨_, _, _, rfl, rfl, hagree.setPending _ _ _⟩
      | none => exact .inr ⟨_, rfl, rfl⟩
    · exact .inr ⟨_, rfl, rfl⟩

/-- Made in place, a call about the identifier has the same answer in both runs. -/
theorem Agree.write (hagree : Agree ident whole own) (hident : call.ident? = some ident)
    (hordered : isMisordered (call.write whole).1 = false) :
    (call.write own).1 = (call.write whole).1 ∧
      Agree ident (call.write whole).2 (call.write own).2 := by
  have hattempt : ∀ name position last,
      whole.attempt call ≠ .error (.misordered name position last) := by
    intro name position last hrefused
    rw [call.write_eq, hrefused] at hordered
    cases hordered
  rw [call.write_eq, call.write_eq]
  rcases hagree.attempt hident hattempt with
    ⟨answer, wholeNext, ownNext, hwhole, hown, hnext⟩ | ⟨refusal, hwhole, hown⟩
  · rw [hwhole, hown]
    exact ⟨rfl, hnext⟩
  · rw [hwhole, hown]
    exact ⟨rfl, hagree⟩

/-- The end of the building phase is the same for both runs. -/
theorem Agree.beginEmit (hagree : Agree ident whole own) :
    Agree ident (Call.beginEmit.write whole).2 (Call.beginEmit.write own).2 := by
  rw [Call.write_eq, Call.write_eq]
  simp only [Ledger.attempt, beginEmit_eq, hagree.phase]
  split_ifs
  · exact ⟨rfl, hagree.found, hagree.mark⟩
  · exact hagree

/-- A change about another identifier changes nothing for this one. -/
theorem Agree.change (hagree : Agree ident whole own) (hident : call.ident? = some ident → False)
    (habout : call.ident?.isSome = true) (hchange : whole.Change call answer next) :
    Agree ident next own := by
  have hne {name : String} (hname : call.ident? = some (sanitize name)) : ident ≠ sanitize name :=
    fun heq ↦ hident (heq ▸ hname)
  cases hchange with
  | again _ _ => exact hagree
  | opened _ _ hlast =>
    refine ⟨hagree.phase, hagree.found.trans ?_, fun last hown ↦ ?_⟩
    · exact (OrderedMap.find?_insert_of_ne _ (hne rfl) _).symm
    · obtain ⟨mark, hmark, hle⟩ := hagree.mark last hown
      exact ⟨_, rfl, hle.trans (hlast mark hmark)⟩
  | registered _ _ =>
    exact ⟨hagree.phase, hagree.found.trans (OrderedMap.find?_insert_of_ne _ (hne rfl) _).symm,
      hagree.mark⟩
  | closed _ => cases habout
  | resolved _ _ _ =>
    exact ⟨hagree.phase, hagree.found.trans (OrderedMap.find?_insert_of_ne _ (hne rfl) _).symm,
      hagree.mark⟩

/-- A call that does not matter to the identifier can be left out. -/
theorem Agree.skip (hagree : Agree ident whole own) (hother : call.concerns ident = false) :
    Agree ident (call.write whole).2 own := by
  have habout : call.ident?.isSome = true := by
    cases call with
    | beginEmit => cases hother
    | _ => rfl
  have hident : call.ident? = some ident → False := by
    intro hsame
    simp [Call.concerns, hsame] at hother
  rcases call.change_or_refused whole with
    ⟨answer, next, _, hwrite, hchange⟩ | ⟨refusal, _, hwrite⟩
  · rw [hwrite]
    exact hagree.change hident habout hchange
  · rw [hwrite]
    exact hagree

/-- The calls that matter to an identifier, made by themselves, have the answers that they have in
the whole run and leave the identifier as it leaves it. -/
theorem Agree.run (hagree : Agree ident whole own) {calls : List Call}
    (hordered : ∀ made ∈ whole.answersOn ident calls, isMisordered made.2 = false) :
    own.answersOn ident (calls.filter (Call.concerns ident)) = whole.answersOn ident calls ∧
      Agree ident (whole.after calls) (own.after (calls.filter (Call.concerns ident))) := by
  -- the two runs are in step after every call of the whole one
  induction calls generalizing whole own with
  | nil => exact ⟨rfl, hagree⟩
  | cons call rest ih =>
    rw [answersOn_cons] at hordered ⊢
    have hrest : ∀ made ∈ (call.write whole).2.answersOn ident rest, isMisordered made.2 = false :=
      fun made hmade ↦ hordered made (List.mem_append_right _ hmade)
    by_cases hconcerns : call.concerns ident = true
    · rw [List.filter_cons_of_pos hconcerns, answersOn_cons, after_cons, after_cons]
      by_cases hident : call.ident? = some ident
      · rw [if_pos hident] at hordered ⊢
        obtain ⟨hanswer, hnext⟩ := hagree.write hident
          (hordered _ (List.mem_append_left _ (List.mem_singleton_self _)))
        obtain ⟨hanswers, hafter⟩ := ih hnext hrest
        exact ⟨by rw [if_pos hident, hanswer, hanswers], hafter⟩
      · have hphase : call = .beginEmit := by
          cases call with
          | beginEmit => rfl
          | _ => exact absurd (by simpa [Call.concerns, Call.ident?] using hconcerns) hident
        subst hphase
        obtain ⟨hanswers, hafter⟩ := ih hagree.beginEmit hrest
        exact ⟨by rw [if_neg hident, if_neg hident, hanswers], hafter⟩
    · have hother := (Bool.not_eq_true _).mp hconcerns
      have hident : call.ident? ≠ some ident := by
        intro hsame
        simp [Call.concerns, hsame] at hother
      rw [List.filter_cons_of_neg hconcerns, after_cons, if_neg hident, List.nil_append]
      exact ih (hagree.skip hother) hrest

/-- Ledgers that agree on an identifier answer every lookup of a name of it alike. -/
theorem Agree.lookups (hagree : Agree ident whole own) {name : String}
    (hname : sanitize name = ident) : Looks whole own name name := by
  subst hname
  refine ⟨?_, fun position ↦ ?_, ?_⟩
  · rw [Ledger.generations, hagree.found]
    rfl
  · rw [Ledger.pending, Ledger.visible, hagree.visible?]
    rfl
  · rw [Ledger.contains, OrderedMap.contains_eq_isSome, hagree.found,
      ← OrderedMap.contains_eq_isSome]
    rfl

end Agree

/-! ### Other names of the same form -/

/-- Whether a call is another one with a name of the same form. -/
inductive Call.Renamed : Call → Call → Prop
  | produce {name other : String} (hform : sanitize other = sanitize name) (position : Int) :
    Renamed (.produce name position) (.produce other position)
  | futureUse {name other : String} (hform : sanitize other = sanitize name) (position : Int) :
    Renamed (.futureUse name position) (.futureUse other position)
  | beginEmit : Renamed .beginEmit .beginEmit
  | resolve {name other : String} (hform : sanitize other = sanitize name) (position : Int) :
    Renamed (.resolve name position) (.resolve other position)

/-- The refusal of the same call under another name: a call in the wrong phase is refused with the
name as it was given. -/
def Refusal.named (name : String) : Refusal → Refusal
  | .fault (.wrongPhase operation phase _ position) =>
    .fault (.wrongPhase operation phase name position)
  | refusal => refusal

/-- The answer to the same call under another name. -/
def Call.answerAs (call : Call) (answer : Except Refusal (Option Decision)) :
    Except Refusal (Option Decision) :=
  answer.mapError (Refusal.named call.name)

section Renamed

variable {call other : Call}

theorem Call.Renamed.attempt (hrenamed : call.Renamed other) (ledger : Ledger) :
    ledger.attempt other = (ledger.attempt call).mapError (Refusal.named other.name) := by
  cases hrenamed with
  | produce hform position =>
    simp only [Ledger.attempt, produce_eq, hform]
    split_ifs
    · rfl
    · cases ledger.lastProduced.filter (position < ·) <;> rfl
    · rfl
  | futureUse hform position =>
    simp only [Ledger.attempt, futureUse_eq, hform]
    split_ifs
    · cases ledger.visible? (sanitize _) position <;> rfl
    · rfl
  | beginEmit =>
    simp only [Ledger.attempt, beginEmit_eq]
    split_ifs <;> rfl
  | resolve hform position =>
    simp only [Ledger.attempt, resolve_eq, hform]
    split_ifs
    · cases ledger.visible? (sanitize _) position with
      | none => rfl
      | some generation =>
        dsimp only
        split_ifs <;> rfl
    · rfl

theorem Call.Renamed.write (hrenamed : call.Renamed other) (ledger : Ledger) :
    other.write ledger = (other.answerAs (call.write ledger).1, (call.write ledger).2) := by
  rw [Call.write_eq, Call.write_eq, hrenamed.attempt]
  cases ledger.attempt call <;> rfl

/-- Names of the same form may take each other's place in a run. -/
theorem run_renamed (ledger : Ledger) {calls others : List Call}
    (hrenamed : List.Forall₂ Call.Renamed calls others) :
    ledger.after others = ledger.after calls ∧
      ledger.answers others = List.zipWith Call.answerAs others (ledger.answers calls) := by
  induction hrenamed generalizing ledger with
  | nil => exact ⟨rfl, rfl⟩
  | @cons call other rest othersRest hcall _ ih =>
    rw [after_cons, after_cons, answers, answers, hcall.write]
    obtain ⟨hafter, hanswers⟩ := ih (call.write ledger).2
    exact ⟨hafter, by rw [hanswers]; rfl⟩

theorem looks_of_form (ledger : Ledger) {name otherName : String}
    (hform : sanitize otherName = sanitize name) : Looks ledger ledger name otherName where
  generations := by rw [generations, generations, hform]
  pending := fun position ↦ by rw [pending, pending, hform]
  contains := by rw [contains, contains, hform]

end Renamed

/-! ### The statement -/

/-- Names in a ledger are apart and count in identifier form only. A run from which every call about
another name is left out has the same answers for an identifier and leaves it the same generations
and pending uses, if no producer of it is refused as misordered. And names of the same form may take
each other's place: the ledger is the same after every run, it answers every lookup alike, and so
are the answers of the calls, but that a call in the wrong phase is refused with the name as it was
given. -/
theorem names_apart (log : Option (List Event)) (calls : List Call) :
    (∀ ident, (∀ made ∈ (fresh log).answersOn ident calls, isMisordered made.2 = false) →
      let whole := (fresh log).after calls
      let own := (fresh log).after (calls.filter (Call.concerns ident))
      (fresh log).answersOn ident (calls.filter (Call.concerns ident)) =
          (fresh log).answersOn ident calls ∧
        own.generationsOf ident = whole.generationsOf ident ∧
        ∀ name, sanitize name = ident → Looks whole own name name) ∧
    (∀ others, List.Forall₂ Call.Renamed calls others →
      (fresh log).after others = (fresh log).after calls ∧
        (fresh log).answers others =
          List.zipWith Call.answerAs others ((fresh log).answers calls)) ∧
    ∀ name other, sanitize other = sanitize name →
      Looks ((fresh log).after calls) ((fresh log).after calls) name other := by
  refine ⟨fun ident hordered ↦ ?_, fun others ↦ run_renamed (fresh log),
    fun name other ↦ looks_of_form _⟩
  have hstart : Agree ident (fresh log) (fresh log) := ⟨rfl, rfl, fun last hlast ↦ by cases hlast⟩
  obtain ⟨hanswers, hagree⟩ := hstart.run hordered
  exact ⟨hanswers, hagree.generationsOf, fun name ↦ hagree.lookups⟩

/-- Three spellings of one identifier with another name between them: one generation is used twice,
a later one not at all, and one call comes in the wrong phase. -/
def interleaved : List Call :=
  [.produce "x/0" 0, .produce "y" 1, .futureUse "x.0" 2, .futureUse "y" 2, .futureUse "x:0" 1,
    .produce "x/0" 3, .produce "x.0" 0, .futureUse "z" 4, .resolve "x/0" 1, .beginEmit,
    .resolve "x/0" 1, .resolve "y" 2, .resolve "x.0" 2, .resolve "x:0" 5]

theorem names_apart_interleaved :
    (∀ made ∈ (fresh none).answersOn "x_0" interleaved, isMisordered made.2 = false) ∧
      interleaved.filter (Call.concerns "x_0") =
        [.produce "x/0" 0, .futureUse "x.0" 2, .futureUse "x:0" 1, .produce "x/0" 3,
          .produce "x.0" 0, .resolve "x/0" 1, .beginEmit, .resolve "x/0" 1, .resolve "x.0" 2,
          .resolve "x:0" 5] ∧
      (fresh none).answersOn "x_0" (interleaved.filter (Call.concerns "x_0")) =
        [(.produce "x/0" 0, .ok none), (.futureUse "x.0" 2, .ok none),
          (.futureUse "x:0" 1, .ok none), (.produce "x/0" 3, .ok none),
          (.produce "x.0" 0, .ok none),
          (.resolve "x/0" 1, .error (.fault (.wrongPhase "resolve_use" "BUILDING" "x/0" (some 1)))),
          (.resolve "x/0" 1, .ok (some ⟨.duplicate, "x_0", 1⟩)),
          (.resolve "x.0" 2, .ok (some ⟨.move, "x_0", 2⟩)),
          (.resolve "x:0" 5, .error (.fault (.unregistered "x_0" 5)))] ∧
      Looks ((fresh none).after interleaved) ((fresh none).after interleaved) "x/0" "x:0" ∧
      (fresh none).answers [.produce "x:0" 0, .resolve "x.0" 0] =
        List.zipWith Call.answerAs [.produce "x:0" 0, .resolve "x.0" 0]
          ((fresh none).answers [.produce "x/0" 0, .resolve "x/0" 0]) := by
  have hordered : ∀ made ∈ (fresh none).answersOn "x_0" interleaved,
      isMisordered made.2 = false := by decide +kernel
  have hrenamed : List.Forall₂ Call.Renamed [.produce "x/0" 0, .resolve "x/0" 0]
      [.produce "x:0" 0, .resolve "x.0" 0] :=
    .cons (.produce (by decide +kernel) 0) (.cons (.resolve (by decide +kernel) 0) .nil)
  refine ⟨hordered, by decide +kernel, ?_, ?_, ?_⟩
  · rw [((names_apart none interleaved).1 "x_0" hordered).1]
    decide +kernel
  · exact (names_apart none interleaved).2.2 "x/0" "x:0" (by decide +kernel)
  · exact ((names_apart none _).2.1 _ hrenamed).2

end Handover.Ledger
