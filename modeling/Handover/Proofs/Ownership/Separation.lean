import Handover.Proofs.Ownership.Machine
import Mathlib.Data.List.Nodup
import Mathlib.Data.List.Range

/-!
# Separate storage

A machine is separate when no two identifiers that can be read are bound to overlapping regions
(`Machine.Separate`), and a region is free when no identifier that can be read is bound to a region
that overlaps it (`Machine.Free`). Handing storage over and copying give free regions
(`free_consume`, `free_allocate`). The calls of the machine that bind nothing keep it separate, keep
free regions free, and keep what identifiers hold, except for an identifier whose binding they
consume (`Machine.Preserves`); in particular writing to a free region changes no value that is held
(`preserves_overwrite`, `preserves_fill`). Binding an identifier to a free region keeps the machine
separate (`Separate.bind`).
-/

set_option autoImplicit false
set_option relaxedAutoImplicit false

namespace Handover

universe u

variable {V : Type u}

namespace Machine

/-- Whether an identifier is bound to a region and can be read. -/
def Live (machine : Machine V) (name : String) (region : Region) : Prop :=
  ∃ foreign, machine.bindings.find? name = some ⟨region, false, foreign⟩

/-- Whether an identifier can be read and has a value, and whether its binding is foreign. -/
def Holds (machine : Machine V) (name : String) (value : V) (foreign : Bool) : Prop :=
  ∃ region, machine.bindings.find? name = some ⟨region, false, foreign⟩ ∧
    machine.contents region = some value

/-- No two identifiers that can be read are bound to overlapping regions, and all of these are parts
of allocations that were made. -/
structure Separate (machine : Machine V) : Prop where
  allocated : ∀ name region, machine.Live name region → region.root < machine.roots
  apart : ∀ first second one other, first ≠ second → machine.Live first one →
    machine.Live second other → ¬ one.Overlaps other

/-- Whether a region is part of an allocation that was made, and no identifier that can be read is
bound to a region that overlaps it. -/
def Free (machine : Machine V) (region : Region) : Prop :=
  region.root < machine.roots ∧ ∀ name live, machine.Live name live → ¬ live.Overlaps region

/-- What calls that bind nothing keep: separation, free regions, and what some identifiers hold. -/
structure Preserves (kept : String → Prop) (machine next : Machine V) : Prop where
  separate : next.Separate
  free : ∀ region, machine.Free region → next.Free region
  holds : ∀ name, kept name → ∀ value foreign,
    machine.Holds name value foreign → next.Holds name value foreign

section Basics

variable {machine next : Machine V} {kept : String → Prop} {name : String} {region : Region}
  {value : V} {foreign : Bool}

theorem Free.part (hfree : machine.Free region) (index : Nat) : machine.Free (region.part index) :=
  ⟨hfree.1, fun name live hlive hoverlaps ↦ hfree.2 name live hlive hoverlaps.of_part⟩

/-- A region that an identifier is bound to is not a part of a free one. -/
theorem Free.ne_of_live (hfree : machine.Free region) {live : Region}
    (hlive : machine.Live name live) : live ≠ region := by
  rintro rfl
  exact hfree.2 name live hlive (Region.overlaps_self live)

theorem Preserves.refl (hseparate : machine.Separate) : Preserves kept machine machine :=
  ⟨hseparate, fun _ hfree ↦ hfree, fun _ _ _ _ hholds ↦ hholds⟩

theorem Preserves.trans {last : Machine V} (hfirst : Preserves kept machine next)
    (hlast : Preserves kept next last) : Preserves kept machine last :=
  ⟨hlast.separate, fun region hfree ↦ hlast.free region (hfirst.free region hfree),
    fun name hname value foreign hholds ↦
      hlast.holds name hname value foreign (hfirst.holds name hname value foreign hholds)⟩

theorem Preserves.mono {fewer : String → Prop} (hpreserves : Preserves kept machine next)
    (hfewer : ∀ name, fewer name → kept name) : Preserves fewer machine next :=
  ⟨hpreserves.separate, hpreserves.free, fun name hname ↦ hpreserves.holds name (hfewer name hname)⟩

/-- A machine with the same bindings and more allocations, in which the regions that are bound have
their values, preserves everything. -/
theorem preserves_of_bindings (hseparate : machine.Separate)
    (hbindings : next.bindings = machine.bindings) (hroots : machine.roots ≤ next.roots)
    (hcontents : ∀ name live, machine.Live name live → next.contents live = machine.contents live) :
    Preserves kept machine next := by
  have hlive : ∀ name live, next.Live name live → machine.Live name live := by
    intro name live hlive
    rwa [Live, hbindings] at hlive
  refine ⟨⟨?_, ?_⟩, ?_, ?_⟩
  · intro name live hnext
    exact (hseparate.allocated name live (hlive name live hnext)).trans_le hroots
  · intro first second one other hne hone hother
    exact hseparate.apart first second one other hne (hlive first one hone)
      (hlive second other hother)
  · intro region hfree
    exact ⟨hfree.1.trans_le hroots, fun name live hnext ↦ hfree.2 name live (hlive name live hnext)⟩
  · rintro name _ value foreign ⟨live, hfind, hvalue⟩
    refine ⟨live, by rw [hbindings, hfind], ?_⟩
    rw [hcontents name live ⟨foreign, hfind⟩, hvalue]

end Basics

/-! ### New storage -/

section Allocation

variable {machine : Machine V} (hseparate : machine.Separate)

include hseparate

/-- A region of an allocation that was not made yet is bound to no identifier. -/
theorem Separate.not_overlaps_of_unallocated {name : String} {live region : Region}
    (hlive : machine.Live name live) (hregion : machine.roots ≤ region.root) :
    ¬ live.Overlaps region := by
  intro hoverlaps
  have hlt := hseparate.allocated name live hlive
  have heq := hoverlaps.1
  omega

theorem Separate.allocate {kept : String → Prop} (value : V) :
    Preserves kept machine (machine.allocate value).2 := by
  refine preserves_of_bindings hseparate rfl (Nat.le_succ _) fun name live hlive ↦ ?_
  refine Function.update_of_ne ?_ _ _
  rintro rfl
  exact hseparate.not_overlaps_of_unallocated hlive (le_refl machine.roots) (Region.overlaps_self _)

theorem Separate.free_allocate (value : V) :
    (machine.allocate value).2.Free (machine.allocate value).1 :=
  ⟨Nat.lt_succ_self _, fun _ _ hlive ↦
    hseparate.not_overlaps_of_unallocated hlive (le_refl machine.roots)⟩

end Allocation

/-! ### Consumed bindings -/

section Consumption

variable {machine : Machine V} {name : String} {region : Region} {foreign : Bool}

/-- The identifiers that can be read after a binding was consumed. -/
theorem live_consume {other : String} {live : Region} {binding : Binding}
    (hlive : (machine.consume name binding).Live other live) :
    other ≠ name ∧ machine.Live other live := by
  obtain ⟨foreign, hfind⟩ := hlive
  by_cases hname : other = name
  · rw [hname, consume, OrderedMap.find?_insert_self] at hfind
    cases hfind
  · refine ⟨hname, foreign, ?_⟩
    rwa [consume, OrderedMap.find?_insert_of_ne _ hname] at hfind

theorem Separate.consume (hseparate : machine.Separate) (name : String) (binding : Binding) :
    Preserves (· ≠ name) machine (machine.consume name binding) := by
  refine ⟨⟨?_, ?_⟩, ?_, ?_⟩
  · intro other live hlive
    exact hseparate.allocated other live (live_consume hlive).2
  · intro first second one other hne hone hother
    exact hseparate.apart first second one other hne (live_consume hone).2 (live_consume hother).2
  · intro free hfree
    exact ⟨hfree.1, fun other live hlive ↦ hfree.2 other live (live_consume hlive).2⟩
  · rintro other hother value foreign ⟨live, hfind, hvalue⟩
    refine ⟨live, ?_, hvalue⟩
    rwa [Machine.consume, OrderedMap.find?_insert_of_ne _ hother]

/-- The region of a binding that was consumed is free. -/
theorem Separate.free_consume (hseparate : machine.Separate) (hlive : machine.Live name region)
    (binding : Binding) : (machine.consume name binding).Free region := by
  refine ⟨hseparate.allocated name region hlive, fun other live hother ↦ ?_⟩
  obtain ⟨hne, hother⟩ := live_consume hother
  exact hseparate.apart other name live region hne hother hlive

end Consumption

/-! ### Writing -/

section Writing

variable {machine : Machine V} {kept : String → Prop} {region : Region}

theorem preserves_overwrite (hseparate : machine.Separate) (hfree : machine.Free region)
    (value : V) : Preserves kept machine (machine.overwrite region value) := by
  refine preserves_of_bindings hseparate rfl (le_refl _) fun name live hlive ↦ ?_
  rw [overwrite]
  dsimp only
  rw [Function.update_of_ne (hfree.ne_of_live hlive), if_neg (hfree.2 name live hlive)]

theorem contents_overwrite (value : V) :
    (machine.overwrite region value).contents region = some value := by
  simp [overwrite]

theorem fill_cons (entry : Region × V) (rest : List (Region × V)) :
    machine.fill (entry :: rest) = Machine.fill rest { machine with
      contents := Function.update machine.contents entry.1 (some entry.2) } :=
  rfl

/-- Filling regions changes the contents of no other region. -/
theorem contents_fill_of_not_mem {entries : List (Region × V)}
    (hregion : region ∉ entries.map Prod.fst) :
    (machine.fill entries).contents region = machine.contents region := by
  induction entries generalizing machine with
  | nil => rfl
  | cons entry rest ih =>
    rw [List.map_cons, List.mem_cons, not_or] at hregion
    rw [fill_cons, ih hregion.2]
    exact Function.update_of_ne hregion.1 _ _

/-- Regions that differ are filled with their values. -/
theorem contents_fill {regions : List Region} (hnodup : regions.Nodup) {values : List V}
    (hlength : regions.length = values.length) :
    List.Forall₂ (fun region value ↦
      (machine.fill (regions.zip values)).contents region = some value) regions values := by
  induction regions generalizing machine values with
  | nil =>
    rw [List.length_nil, eq_comm, List.length_eq_zero_iff] at hlength
    rw [hlength]
    exact .nil
  | cons region rest ih =>
    cases values with
    | nil => simp at hlength
    | cons value values =>
      obtain ⟨habsent, hrest⟩ := List.nodup_cons.mp hnodup
      rw [List.zip_cons_cons, fill_cons]
      refine .cons ?_ (ih hrest (Nat.succ.inj hlength))
      rw [contents_fill_of_not_mem]
      · exact Function.update_self _ _ _
      · intro hmem
        obtain ⟨⟨_, _⟩, hentry, rfl⟩ := List.mem_map.mp hmem
        exact habsent (List.of_mem_zip hentry).1

theorem preserves_fill (hseparate : machine.Separate) {entries : List (Region × V)}
    (hfree : ∀ region ∈ entries.map Prod.fst, machine.Free region) :
    Preserves kept machine (machine.fill entries) := by
  refine preserves_of_bindings hseparate rfl (le_refl _) fun name live hlive ↦ ?_
  refine contents_fill_of_not_mem fun hmem ↦ ?_
  exact (hfree live hmem).ne_of_live hlive rfl

end Writing

/-! ### Binding -/

section Binding

variable {machine : Machine V} {name : String} {region : Region} {foreign : Bool}

/-- The identifiers that can be read after an identifier was bound. -/
theorem live_bind {other : String} {live : Region}
    (hlive : (machine.bind name region foreign).Live other live) :
    (other = name ∧ live = region) ∨ (other ≠ name ∧ machine.Live other live) := by
  obtain ⟨kind, hfind⟩ := hlive
  by_cases hname : other = name
  · rw [hname, bind, OrderedMap.find?_insert_self] at hfind
    cases hfind
    exact .inl ⟨hname, rfl⟩
  · rw [bind, OrderedMap.find?_insert_of_ne _ hname] at hfind
    exact .inr ⟨hname, kind, hfind⟩

theorem Separate.bind (hseparate : machine.Separate) (hfree : machine.Free region) (name : String)
    (foreign : Bool) : (machine.bind name region foreign).Separate := by
  refine ⟨?_, ?_⟩
  · intro other live hlive
    rcases live_bind hlive with ⟨_, rfl⟩ | ⟨_, hlive⟩
    · exact hfree.1
    · exact hseparate.allocated other live hlive
  · intro first second one other hne hone hother
    rcases live_bind hone with ⟨rfl, rfl⟩ | ⟨_, hfirst⟩
    · rcases live_bind hother with ⟨rfl, _⟩ | ⟨_, hsecond⟩
      · exact absurd rfl hne
      · exact fun hoverlaps ↦ hfree.2 second other hsecond hoverlaps.symm
    · rcases live_bind hother with ⟨_, rfl⟩ | ⟨_, hsecond⟩
      · exact hfree.2 first one hfirst
      · exact hseparate.apart first second one other hne hfirst hsecond

/-- A free region that does not overlap the one that is bound stays free. -/
theorem Free.bind {other : Region} (hfree : machine.Free other)
    (hapart : ¬ region.Overlaps other) (name : String) (foreign : Bool) :
    (machine.bind name region foreign).Free other := by
  refine ⟨hfree.1, fun reader live hlive ↦ ?_⟩
  rcases live_bind hlive with ⟨_, rfl⟩ | ⟨_, hlive⟩
  · exact hapart
  · exact hfree.2 reader live hlive

theorem holds_bind_self {value : V} (hcontents : machine.contents region = some value)
    (name : String) (foreign : Bool) :
    (machine.bind name region foreign).Holds name value foreign :=
  ⟨region, OrderedMap.find?_insert_self _ _ _, hcontents⟩

theorem Holds.bind {other : String} {value : V} {kind : Bool}
    (hholds : machine.Holds other value kind) (hne : other ≠ name) (region : Region)
    (foreign : Bool) :
    (machine.bind name region foreign).Holds other value kind := by
  obtain ⟨live, hfind, hcontents⟩ := hholds
  refine ⟨live, ?_, hcontents⟩
  rwa [Machine.bind, OrderedMap.find?_insert_of_ne _ hne]

end Binding

/-! ### Slots -/

section Slots

variable {machine : Machine V} {reference : Reference} {value : V} {foreign : Bool}

/-- A slot whose identifier holds a value works on that value, and on a free region when it is
owned. Only the identifier of a slot that is handed over loses its value. Assumes: what is foreign
is not handed over. -/
theorem fetch_of_holds (hseparate : machine.Separate)
    (hholds : machine.Holds reference.subject value foreign)
    (hforeign : reference.isMove = true → foreign = false) :
    ∃ region next, machine.fetch reference = .ok ((region, value), next) ∧
      Preserves (fun name ↦ reference.owned = true → reference.isMove = true →
        name ≠ reference.subject) machine next ∧
      (reference.owned = true → next.Free region) := by
  obtain ⟨live, hfind, hcontents⟩ := hholds
  by_cases howned : reference.owned = true
  · by_cases hmove : reference.isMove = true
    · refine ⟨live, machine.consume reference.subject ⟨live, false, foreign⟩, ?_, ?_, ?_⟩
      · simp [fetch, hfind, hcontents, Reference.isClone, howned, hmove, hforeign hmove]
      · exact (hseparate.consume _ _).mono fun name hname ↦ hname howned hmove
      · exact fun _ ↦ hseparate.free_consume ⟨foreign, hfind⟩ _
    · refine ⟨(machine.allocate value).1, (machine.allocate value).2, ?_, ?_, ?_⟩
      · simp [fetch, hfind, hcontents, Reference.isClone, howned, hmove]
      · exact hseparate.allocate value
      · exact fun _ ↦ hseparate.free_allocate value
  · refine ⟨live, machine, ?_, Preserves.refl hseparate, fun h ↦ absurd h howned⟩
    simp [fetch, hfind, hcontents, Reference.isClone, howned]

end Slots

/-! ### Results -/

/-- Whether results stand in free regions of which no two overlap. -/
structure Settled (machine : Machine V) (regions : List Region) (results : List V) : Prop where
  filled : List.Forall₂ (fun region result ↦ machine.Free region ∧
    machine.contents region = some result) regions results
  apart : regions.Pairwise fun one other ↦ ¬ one.Overlaps other

section Results

variable {machine next : Machine V} {kept : String → Prop} {statement : Statement}
  {operands : List (Region × V)} {regions : List Region} {results : List V}

theorem nodup_of_apart (hapart : regions.Pairwise fun one other ↦ ¬ one.Overlaps other) :
    regions.Nodup := by
  refine List.Pairwise.imp ?_ hapart
  rintro one _ hnot rfl
  exact hnot (Region.overlaps_self one)

/-- Free regions of which no two overlap are filled with results. -/
theorem settled_fill (hseparate : machine.Separate) (hlength : regions.length = results.length)
    (hfree : ∀ region ∈ regions, machine.Free region)
    (hapart : regions.Pairwise fun one other ↦ ¬ one.Overlaps other) :
    Preserves kept machine (machine.fill (regions.zip results)) ∧
      Settled (machine.fill (regions.zip results)) regions results := by
  have hpreserves : ∀ kept, Preserves kept machine (machine.fill (regions.zip results)) := by
    intro kept
    refine preserves_fill hseparate fun region hregion ↦ hfree region ?_
    obtain ⟨⟨_, _⟩, hentry, rfl⟩ := List.mem_map.mp hregion
    exact (List.of_mem_zip hentry).1
  refine ⟨hpreserves kept, ⟨?_, hapart⟩⟩
  have hcontents : List.Forall₂ (fun region result ↦
      (machine.fill (regions.zip results)).contents region = some result) regions results :=
    contents_fill (nodup_of_apart hapart) hlength
  rw [List.forall₂_iff_get] at hcontents ⊢
  refine ⟨hlength, fun index hregion hresult ↦ ⟨?_, hcontents.2 index hregion hresult⟩⟩
  exact (hpreserves kept).free _ (hfree _ (List.get_mem _ _))

/-- The results of a statement are put into free regions of which no two overlap. Assumes: an owned
operand in a free region, and one result for an in-place form. -/
theorem settle_of_free (hseparate : machine.Separate)
    (hfree : statement.owned = true → ∀ operand ∈ operands.head?, machine.Free operand.1)
    (hsingle : statement.owned = true → statement.node.op.isView = false → results.length ≤ 1) :
    Preserves kept machine (machine.settle statement operands results).2 ∧
      Settled (machine.settle statement operands results).2
        (machine.settle statement operands results).1 results := by
  unfold settle
  split
  · rename_i region operand rest howned
    have hregion : machine.Free region := hfree howned _ rfl
    split_ifs with hview
    · refine settled_fill hseparate (by simp) ?_ ?_
      · intro part hpart
        obtain ⟨index, _, rfl⟩ := List.mem_map.mp hpart
        exact hregion.part index
      · rw [List.pairwise_map]
        exact List.nodup_range.imp fun hne ↦ Region.not_overlaps_part hne
    · cases results with
      | nil => exact ⟨Preserves.refl hseparate, ⟨.nil, .nil⟩⟩
      | cons result others =>
        have hnil : others = [] := by
          have hcount := hsingle howned (Bool.eq_false_iff.mpr hview)
          rw [List.length_cons] at hcount
          exact List.eq_nil_of_length_eq_zero (by omega)
        subst hnil
        have hpreserves : Preserves kept machine (machine.overwrite region result) :=
          preserves_overwrite hseparate hregion result
        refine ⟨hpreserves, ⟨.cons ⟨hpreserves.free region hregion, ?_⟩ .nil, ?_⟩⟩
        · exact contents_overwrite result
        · exact List.pairwise_singleton ..
  · have hextended : Preserves kept machine
        { machine with roots := machine.roots + results.length } :=
      preserves_of_bindings hseparate rfl (Nat.le_add_right _ _) fun _ _ _ ↦ rfl
    refine (settled_fill hextended.separate ?_ ?_ ?_).imp hextended.trans id
    · rw [List.length_map, List.length_range]
    · intro region hregion
      obtain ⟨index, hindex, rfl⟩ := List.mem_map.mp hregion
      refine ⟨Nat.add_lt_add_left (List.mem_range.mp hindex) _, fun name live hlive ↦ ?_⟩
      exact hseparate.not_overlaps_of_unallocated hlive (Nat.le_add_right _ _)
    · rw [List.pairwise_map]
      refine List.nodup_range.imp fun hne hoverlaps ↦ hne ?_
      exact Nat.add_left_cancel hoverlaps.1

end Results

end Machine

end Handover
