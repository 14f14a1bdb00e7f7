import Handover.Error
import Mathlib.Data.List.Basic

/-!
# Runs of computations

How a call that may fail is taken apart: a result that is bound (`Result.bind_eq_ok_iff`) or
computed for every item of a list (`Result.mapM_eq_ok_iff`), a condition that a result satisfies if
there is one (`Result.Ensures`), and a computation on a state that is kept when it fails
(`Stateful.run_bind`). Such a computation succeeds when its parts do, one after the other
(`Stateful.bind_eq_ok_iff`), and it fails where the first of them fails
(`Stateful.bind_eq_error_iff`).
-/

set_option autoImplicit false
set_option relaxedAutoImplicit false

namespace Handover

variable {α β : Type}

/-! ### Results -/

namespace Result

variable {first : Result α} {next : α → Result β}

theorem ok_bind (value : α) (next : α → Result β) : (Except.ok value >>= next) = next value := rfl

theorem bind_eq_ok_iff {value : β} :
    (first >>= next) = .ok value ↔ ∃ middle, first = .ok middle ∧ next middle = .ok value := by
  cases first with
  | error err =>
    constructor
    · intro h
      cases h
    · rintro ⟨_, h, _⟩
      cases h
  | ok middle =>
    constructor
    · exact fun h ↦ ⟨middle, rfl, h⟩
    · rintro ⟨_, hmiddle, h⟩
      cases hmiddle
      exact h

theorem bind_eq_error_iff {err : Error} :
    (first >>= next) = .error err ↔
      first = .error err ∨ ∃ middle, first = .ok middle ∧ next middle = .error err := by
  cases first with
  | error other =>
    constructor
    · exact fun h ↦ .inl (congrArg _ (Except.error.inj h))
    · rintro (h | ⟨_, h, _⟩)
      · exact congrArg _ (Except.error.inj h)
      · cases h
  | ok middle =>
    constructor
    · exact fun h ↦ .inr ⟨middle, rfl, h⟩
    · rintro (h | ⟨_, hmiddle, h⟩)
      · cases h
      · cases hmiddle
        exact h

theorem eq_ok_of_toOption_eq_some {result : Result α} {value : α}
    (hvalue : result.toOption = some value) : result = .ok value := by
  cases result with
  | error err => cases hvalue
  | ok other => exact congrArg _ (Option.some.inj hvalue)

/-- The error of a result, if it has one. -/
def error? : Result α → Option Error
  | .ok _ => none
  | .error err => some err

theorem eq_error_of_error?_eq_some {result : Result α} {err : Error}
    (herr : result.error? = some err) : result = .error err := by
  cases result with
  | ok value => cases herr
  | error other => exact congrArg _ (Option.some.inj herr)

/-- The results of the items of a list are those of the list. -/
theorem mapM_eq_ok_iff {items : List α} {call : α → Result β} {values : List β} :
    items.mapM call = .ok values ↔
      List.Forall₂ (fun item value ↦ call item = .ok value) items values := by
  induction items generalizing values with
  | nil =>
    rw [List.mapM_nil]
    constructor
    · intro h
      obtain rfl := Except.ok.inj h
      exact .nil
    · intro h
      cases h
      rfl
  | cons head rest ih =>
    rw [List.mapM_cons, bind_eq_ok_iff]
    constructor
    · rintro ⟨value, hvalue, hrest⟩
      obtain ⟨others, hothers, heq⟩ := bind_eq_ok_iff.mp hrest
      obtain rfl := Except.ok.inj heq
      exact .cons hvalue (ih.mp hothers)
    · intro h
      cases h with
      | cons hvalue hothers => exact ⟨_, hvalue, bind_eq_ok_iff.mpr ⟨_, ih.mpr hothers, rfl⟩⟩

/-- A result of the items of a list is that of one of them. -/
theorem exists_of_mem_of_mapM {items : List α} {call : α → Result β} {values : List β}
    (hvalues : items.mapM call = .ok values) {value : β} (hmem : value ∈ values) :
    ∃ item ∈ items, call item = .ok value := by
  have hall := mapM_eq_ok_iff.mp hvalues
  clear hvalues
  induction hall with
  | nil => simp at hmem
  | cons hhead _ ih =>
    rcases List.mem_cons.mp hmem with rfl | hmem
    · exact ⟨_, List.mem_cons_self .., hhead⟩
    · obtain ⟨item, hitem, hvalue⟩ := ih hmem
      exact ⟨item, List.mem_cons_of_mem _ hitem, hvalue⟩

/-- An item of a list has one of the results of the list. -/
theorem exists_result_of_mem {items : List α} {call : α → Result β} {values : List β}
    (hvalues : items.mapM call = .ok values) {item : α} (hmem : item ∈ items) :
    ∃ value ∈ values, call item = .ok value := by
  have hall := mapM_eq_ok_iff.mp hvalues
  clear hvalues
  induction hall with
  | nil => simp at hmem
  | cons hhead _ ih =>
    rcases List.mem_cons.mp hmem with rfl | hmem
    · exact ⟨_, List.mem_cons_self .., hhead⟩
    · obtain ⟨value, hvalue, hitem⟩ := ih hmem
      exact ⟨value, List.mem_cons_of_mem _ hvalue, hitem⟩

/-- Whether a result satisfies a condition if there is one. -/
def Ensures (condition : α → Prop) (result : Result α) : Prop :=
  ∀ value, result = .ok value → condition value

theorem ensures_pure {condition : α → Prop} {value : α} (hvalue : condition value) :
    Ensures condition (pure value) := by
  intro other hother
  obtain rfl := Except.ok.inj hother
  exact hvalue

theorem ensures_error (condition : α → Prop) (err : Error) : Ensures condition (.error err) := by
  intro value hvalue
  cases hvalue

theorem Ensures.bind {condition : β → Prop}
    (hnext : ∀ value, first = .ok value → (next value).Ensures condition) :
    (first >>= next).Ensures condition := by
  intro value hvalue
  obtain ⟨middle, hmiddle, hrest⟩ := bind_eq_ok_iff.mp hvalue
  exact hnext middle hmiddle value hrest

theorem Ensures.get {condition : α → Prop} {result : Result α} (hensures : result.Ensures condition)
    (hsome : result.toOption.isSome = true) : condition (result.toOption.get hsome) :=
  hensures _ (eq_ok_of_toOption_eq_some (Option.some_get hsome).symm)

theorem Ensures.ite {condition : α → Prop} {chosen : Prop} [Decidable chosen]
    {first second : Result α} (hfirst : first.Ensures condition)
    (hsecond : second.Ensures condition) :
    (if chosen then first else second).Ensures condition := by
  split_ifs
  · exact hfirst
  · exact hsecond

/-- A condition that every step keeps holds at the end. -/
theorem Ensures.foldlM {condition : β → Prop} {step : β → α → Result β} {items : List α} {start : β}
    (hstart : condition start)
    (hstep : ∀ value item, condition value → (step value item).Ensures condition) :
    (items.foldlM step start).Ensures condition := by
  induction items generalizing start with
  | nil => exact ensures_pure hstart
  | cons item rest ih =>
    rw [List.foldlM_cons]
    exact Ensures.bind fun value hvalue ↦ ih (hstep start item hstart value hvalue)

/-- Whether there is a result. -/
def Returns (result : Result α) : Prop := ∃ value, result = .ok value

theorem returns_pure (value : α) : Returns (pure value) := ⟨value, rfl⟩

theorem returns_of_isSome {result : Result α} (hsome : result.toOption.isSome = true) :
    result.Returns := by
  obtain ⟨value, hvalue⟩ := Option.isSome_iff_exists.mp hsome
  exact ⟨value, eq_ok_of_toOption_eq_some hvalue⟩

theorem Returns.bind (hfirst : first.Returns)
    (hnext : ∀ value, first = .ok value → (next value).Returns) : (first >>= next).Returns := by
  obtain ⟨middle, hmiddle⟩ := hfirst
  obtain ⟨value, hvalue⟩ := hnext middle hmiddle
  exact ⟨value, bind_eq_ok_iff.mpr ⟨middle, hmiddle, hvalue⟩⟩

theorem Returns.mapM {items : List α} {call : α → Result β}
    (hcall : ∀ item ∈ items, (call item).Returns) : (items.mapM call).Returns := by
  induction items with
  | nil => exact returns_pure []
  | cons head rest ih =>
    rw [List.mapM_cons]
    exact (hcall head (List.mem_cons_self ..)).bind fun _ _ ↦
      (ih fun item hitem ↦ hcall item (List.mem_cons_of_mem _ hitem)).bind fun _ _ ↦ returns_pure _

/-- The calls for the items of a list fail with the error of the first call that fails. -/
theorem mapM_eq_error_iff {items : List α} {call : α → Result β} {err : Error} :
    items.mapM call = .error err ↔
      ∃ before item after, items = before ++ item :: after ∧
        (∀ earlier ∈ before, (call earlier).Returns) ∧ call item = .error err := by
  induction items with
  | nil =>
    constructor
    · intro h
      cases h
    · rintro ⟨before, item, after, hsplit, _⟩
      simp at hsplit
  | cons head rest ih =>
    rw [List.mapM_cons, bind_eq_error_iff]
    constructor
    · rintro (hhead | ⟨value, hvalue, hrest⟩)
      · exact ⟨[], head, rest, rfl, List.forall_mem_nil _, hhead⟩
      · rcases bind_eq_error_iff.mp hrest with hrest | ⟨_, _, hpure⟩
        · obtain ⟨before, item, after, rfl, hearlier, hitem⟩ := ih.mp hrest
          exact ⟨head :: before, item, after, rfl,
            List.forall_mem_cons.mpr ⟨⟨value, hvalue⟩, hearlier⟩, hitem⟩
        · cases hpure
    · rintro ⟨before, item, after, hsplit, hearlier, hitem⟩
      cases before with
      | nil =>
        obtain ⟨rfl, rfl⟩ := List.cons.inj hsplit
        exact .inl hitem
      | cons first others =>
        obtain ⟨rfl, rfl⟩ := List.cons.inj hsplit
        obtain ⟨⟨value, hvalue⟩, hothers⟩ := List.forall_mem_cons.mp hearlier
        refine .inr ⟨value, hvalue, bind_eq_error_iff.mpr (.inl ?_)⟩
        exact ih.mpr ⟨others, item, after, rfl, hothers, hitem⟩

/-- The calls for the items of a list, of which those that fail all fail with one error. -/
theorem mapM_eq_error_of_mem {items : List α} {call : α → Result β} {err : Error} {item : α}
    (hitem : item ∈ items) (hfails : call item = .error err)
    (hcall : ∀ other ∈ items, (call other).Returns ∨ call other = .error err) :
    items.mapM call = .error err := by
  cases hcalls : items.mapM call with
  | ok values =>
    obtain ⟨value, _, hvalue⟩ := exists_result_of_mem hcalls hitem
    cases hfails.symm.trans hvalue
  | error other =>
    obtain ⟨before, failed, after, rfl, _, hfailed⟩ := mapM_eq_error_iff.mp hcalls
    rcases hcall failed (by simp) with ⟨value, hvalue⟩ | hsame
    · cases hvalue.symm.trans hfailed
    · cases hfailed.symm.trans hsame
      rfl

/-- Whether a second computation has the result of the first one, changed in some way, if that has
one. -/
def Mirrors {γ : Type} (change : α → γ) (first : Result α) (second : Result γ) : Prop :=
  first.Ensures fun value ↦ second = .ok (change value)

section Mirrors

variable {γ δ : Type} {change : α → γ} {changeNext : β → δ} {nextSecond : γ → Result δ}

theorem mirrors_pure (change : α → γ) (value : α) :
    Mirrors change (pure value) (pure (change value)) :=
  ensures_pure rfl

theorem mirrors_error (change : α → γ) (err : Error) (second : Result γ) :
    Mirrors change (.error err) second :=
  ensures_error _ err

theorem Mirrors.bind {second : Result γ} (hfirst : first.Mirrors change second)
    (hnext : ∀ value, first = .ok value →
      (next value).Mirrors changeNext (nextSecond (change value))) :
    (first >>= next).Mirrors changeNext (second >>= nextSecond) := by
  refine Ensures.bind fun value hvalue ↦ ?_
  rw [hfirst value hvalue]
  exact hnext value hvalue

/-- A computation that both have in common. -/
theorem Mirrors.bind_same {nextSecond : α → Result δ}
    (hnext : ∀ value, first = .ok value → (next value).Mirrors changeNext (nextSecond value)) :
    (first >>= next).Mirrors changeNext (first >>= nextSecond) := by
  have hfirst : first.Mirrors id first := fun _ hvalue ↦ hvalue
  exact hfirst.bind hnext

theorem Mirrors.mapM {call : α → Result β} {callSecond : α → Result δ} {items : List α}
    (hcall : ∀ item ∈ items, (call item).Mirrors changeNext (callSecond item)) :
    (items.mapM call).Mirrors (List.map changeNext) (items.mapM callSecond) := by
  induction items with
  | nil => exact mirrors_pure _ []
  | cons item rest ih =>
    rw [List.mapM_cons, List.mapM_cons]
    exact (hcall item (List.mem_cons_self ..)).bind fun _ _ ↦
      (ih fun other hother ↦ hcall other (List.mem_cons_of_mem _ hother)).bind fun _ _ ↦
        mirrors_pure _ _

/-- Two loops whose steps mirror each other. -/
theorem Mirrors.foldlM {step : β → α → Result β} {stepSecond : δ → α → Result δ} {items : List α}
    (hstep : ∀ state, ∀ item ∈ items,
      (step state item).Mirrors changeNext (stepSecond (changeNext state) item))
    (start : β) :
    (items.foldlM step start).Mirrors changeNext (items.foldlM stepSecond (changeNext start)) := by
  induction items generalizing start with
  | nil => exact mirrors_pure changeNext start
  | cons item rest ih =>
    rw [List.foldlM_cons, List.foldlM_cons]
    exact (hstep start item (List.mem_cons_self ..)).bind fun state _ ↦
      ih (fun state other hother ↦ hstep state other (List.mem_cons_of_mem _ hother)) state

end Mirrors

end Result

/-! ### Computations on a state -/

/-- A computation on a state, which is kept when the computation fails. -/
abbrev Stateful (σ α : Type) : Type := ExceptT Error (StateM σ) α

namespace Stateful

variable {σ : Type} {first : Stateful σ α} {next : α → Stateful σ β} {state final : σ}

theorem exists_state_of_fst {computation : Stateful σ α} {state : σ} {value : α}
    (hvalue : (computation state).1 = .ok value) :
    ∃ final, computation state = (.ok value, final) :=
  ⟨(computation state).2, Prod.ext hvalue rfl⟩

theorem run_bind (first : Stateful σ α) (next : α → Stateful σ β) (state : σ) :
    (first >>= next) state =
      match first state with
      | (.ok value, reached) => next value reached
      | (.error err, reached) => (.error err, reached) := by
  show (ExceptT.bindCont next (first state).1) (first state).2 = _
  rcases first state with ⟨_ | _, _⟩ <;> rfl

theorem bind_eq_ok_iff {value : β} :
    (first >>= next) state = (.ok value, final) ↔
      ∃ middle reached, first state = (.ok middle, reached) ∧
        next middle reached = (.ok value, final) := by
  rw [run_bind]
  rcases first state with ⟨err | middle, reached⟩
  · constructor
    · intro h
      cases h
    · rintro ⟨_, _, h, _⟩
      cases h
  · constructor
    · exact fun h ↦ ⟨middle, reached, rfl, h⟩
    · rintro ⟨_, _, h, hnext⟩
      cases h
      exact hnext

theorem bind_eq_error_iff {err : Error} :
    (first >>= next) state = (.error err, final) ↔
      first state = (.error err, final) ∨
        ∃ middle reached, first state = (.ok middle, reached) ∧
          next middle reached = (.error err, final) := by
  rw [run_bind]
  rcases first state with ⟨other | middle, reached⟩
  · constructor
    · intro h
      cases h
      exact .inl rfl
    · rintro (h | ⟨_, _, h, _⟩)
      · cases h
        rfl
      · cases h
  · constructor
    · exact fun h ↦ .inr ⟨middle, reached, rfl, h⟩
    · rintro (h | ⟨_, _, h, hnext⟩)
      · cases h
      · cases h
        exact hnext

end Stateful

end Handover
