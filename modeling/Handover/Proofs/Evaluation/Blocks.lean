import Handover.Tensor.Block
import Mathlib.Algebra.GroupWithZero.Nat
import Mathlib.Data.List.Forall2
import Mathlib.Data.List.GetD
import Mathlib.Data.List.Infix

/-!
# Joining the pieces of a block

The sizes of pieces fill a dimension, so that the places of the cuts are those where one piece ends
and the next one begins (`Block.cut_ends`), also when some of them coincide. Joining looks an
element up in the first piece that reaches it, which is the piece that it was cut into
(`Block.find_pieces`). So the pieces joined along the same dimension are the block again, of
whatever type its elements are (`Block.concatenate_pieces`).
-/

set_option autoImplicit false
set_option relaxedAutoImplicit false

namespace Handover

/-! ### Boxes with one length changed -/

namespace Shape

theorem length_eq_of_contains {shape index : List Nat} (hindex : Contains shape index) :
    index.length = shape.length := by
  induction shape generalizing index with
  | nil =>
    cases index with
    | nil => rfl
    | cons coordinate rest => exact absurd hindex (by simp [Contains])
  | cons length shape ih =>
    cases index with
    | nil => exact absurd hindex (by simp [Contains])
    | cons coordinate rest => rw [List.length_cons, List.length_cons, ih hindex.2]

/-- A coordinate is below the length of its dimension. -/
theorem getD_lt_of_contains {shape index : List Nat} (hindex : Contains shape index) {axis : Nat}
    (haxis : axis < shape.length) : index.getD axis 0 < shape.getD axis 0 := by
  induction shape generalizing index axis with
  | nil => simp at haxis
  | cons length shape ih =>
    cases index with
    | nil => exact absurd hindex (by simp [Contains])
    | cons coordinate rest =>
      cases axis with
      | zero => exact hindex.1
      | succ axis => exact ih hindex.2 (Nat.lt_of_succ_lt_succ haxis)

/-- An index stays in a box of which one length is changed, if it takes a coordinate below that
length. -/
theorem contains_set {shape index : List Nat} {axis length : Nat}
    (hindex : Contains (shape.set axis length) index) {newLength coordinate : Nat}
    (hcoordinate : coordinate < newLength) :
    Contains (shape.set axis newLength) (index.set axis coordinate) := by
  induction shape generalizing index axis with
  | nil => cases index with
    | nil => trivial
    | cons coordinate rest => exact absurd hindex (by simp [Contains])
  | cons first shape ih =>
    cases index with
    | nil => cases axis <;> exact absurd hindex (by simp [Contains])
    | cons head rest =>
      cases axis with
      | zero => exact ⟨hcoordinate, hindex.2⟩
      | succ axis => exact ⟨hindex.1, ih hindex.2⟩

end Shape

/-- Putting back the item at a place changes nothing. -/
theorem set_getD_self {α : Type} (items : List α) (place : Nat) (default : α) :
    items.set place (items.getD place default) = items := by
  by_cases hplace : place < items.length
  · rw [List.getD_eq_getElem _ _ hplace, List.set_getElem_self]
  · exact List.set_eq_of_length_le (Nat.le_of_not_lt hplace)

theorem getD_set_self {items : List Nat} {place : Nat} (hplace : place < items.length)
    (value : Nat) : (items.set place value).getD place 0 = value := by
  rw [List.getD_eq_getElem _ _ (by simpa using hplace), List.getElem_set_self]

/-! ### The pieces -/

/-- Where pieces of some sizes begin and end when one follows the other. -/
def spans (start : Nat) : List Nat → List (Nat × Nat)
  | [] => []
  | size :: rest => (start, start + size) :: spans (start + size) rest

/-- Where the pieces end. -/
def ends (start : Nat) (sizes : List Nat) : List Nat := (spans start sizes).map Prod.snd

section Spans

variable {start : Nat} {sizes : List Nat}

theorem ends_cons (start size : Nat) (rest : List Nat) :
    ends start (size :: rest) = (start + size) :: ends (start + size) rest := rfl

theorem ends_ne_nil (hsizes : sizes ≠ []) : ends start sizes ≠ [] := by
  cases sizes with
  | nil => exact absurd rfl hsizes
  | cons size rest => exact List.cons_ne_nil _ _

/-- The last piece ends behind all of them. -/
theorem getLast_ends (hends : ends start sizes ≠ []) :
    (ends start sizes).getLast hends = start + sizes.sum := by
  induction sizes generalizing start with
  | nil => exact absurd rfl hends
  | cons size rest ih =>
    cases rest with
    | nil => simp [ends, spans]
    | cons next rest =>
      have hrest : ends (start + size) (next :: rest) ≠ [] := ends_ne_nil (List.cons_ne_nil _ _)
      have hlast := ih hrest
      simp only [ends_cons start size, List.getLast_cons hrest, hlast, List.sum_cons]
      omega

theorem le_of_mem_ends {place : Nat} (hplace : place ∈ ends start sizes) :
    place ≤ start + sizes.sum := by
  induction sizes generalizing start with
  | nil => cases hplace
  | cons size rest ih =>
    rw [ends_cons, List.mem_cons] at hplace
    rw [List.sum_cons]
    rcases hplace with rfl | hplace
    · omega
    · have := ih hplace
      omega

/-- A piece begins where the one before it ends. -/
theorem zip_ends (start : Nat) (sizes : List Nat) :
    List.zip (start :: (ends start sizes).dropLast) (ends start sizes) = spans start sizes := by
  induction sizes generalizing start with
  | nil => rfl
  | cons size rest ih =>
    cases rest with
    | nil => rfl
    | cons next rest =>
      have hrest : ends (start + size) (next :: rest) ≠ [] := ends_ne_nil (List.cons_ne_nil _ _)
      rw [ends_cons, List.dropLast_cons_of_ne_nil hrest, List.zip_cons_cons, ih]
      rfl

end Spans

namespace Block

variable {α : Type}

/-- Whether two blocks have the same shape and the same elements at its indices. -/
def Agrees (block other : Block α) : Prop :=
  block.shape = other.shape ∧
    ∀ index, Shape.Contains other.shape index → block.get index = other.get index

theorem Agrees.refl (block : Block α) : block.Agrees block := ⟨rfl, fun _ _ ↦ rfl⟩

/-- The pieces of a block along a dimension that have some sizes, from a place on. -/
def pieces (block : Block α) (axis start : Nat) (sizes : List Nat) : List (Block α) :=
  (spans start sizes).map fun span ↦ block.slice axis span.1 span.2

variable {block : Block α} {axis : Nat}

theorem cutPlace_natCast {length place : Nat} (hplace : place ≤ length) :
    cutPlace length (place : Int) = place := by
  rw [cutPlace, if_neg (by omega), Int.toNat_natCast, Nat.min_eq_left hplace]

/-- Cut where pieces end, except for the last one, a block falls into pieces of the given sizes. -/
theorem cut_ends {sizes : List Nat} (hsizes : sizes ≠ [])
    (hsum : sizes.sum = block.shape.getD axis 0) :
    block.cut axis ((ends 0 sizes).dropLast.map Int.ofNat) (block.shape.getD axis 0) =
      block.pieces axis 0 sizes := by
  have hends : ends 0 sizes ≠ [] := ends_ne_nil hsizes
  have hplaces : ((ends 0 sizes).dropLast.map Int.ofNat).map
      (cutPlace (block.shape.getD axis 0)) = (ends 0 sizes).dropLast := by
    rw [List.map_map]
    refine (List.map_congr_left fun place hplace ↦ ?_).trans (List.map_id _)
    refine cutPlace_natCast ?_
    have hle := le_of_mem_ends (List.mem_of_mem_dropLast hplace)
    omega
  have hstop : (ends 0 sizes).dropLast ++ [block.shape.getD axis 0] = ends 0 sizes := by
    have hlast := getLast_ends hends
    rw [Nat.zero_add, hsum] at hlast
    rw [← hlast, List.dropLast_append_getLast]
  unfold cut pieces
  dsimp only
  rw [hplaces, Nat.min_self, hstop, zip_ends]

/-- Pieces of some sizes have these lengths along the dimension and the lengths of the block along
the others. -/
theorem forall₂_pieces (block : Block α) (axis start : Nat) (sizes : List Nat) :
    List.Forall₂ (fun piece size ↦ piece.shape = block.shape.set axis size)
      (block.pieces axis start sizes) sizes := by
  induction sizes generalizing start with
  | nil => exact .nil
  | cons size rest ih =>
    refine .cons ?_ (ih (start + size))
    show block.shape.set axis (start + size - start) = _
    rw [Nat.add_sub_cancel_left]

/-! ### Joining the pieces -/

variable {others : List (Block α)} {start : Nat} {sizes : List Nat}

/-- Blocks that agree with pieces of some sizes have these lengths. -/
theorem shape_of_agrees (hothers : List.Forall₂ Agrees others (block.pieces axis start sizes)) :
    List.Forall₂ (fun other size ↦ other.shape = block.shape.set axis size) others sizes := by
  induction sizes generalizing start others with
  | nil =>
    cases hothers
    exact .nil
  | cons size rest ih =>
    obtain ⟨other, others, hfirst, hrest, rfl⟩ := List.forall₂_cons_right_iff.mp hothers
    have hsize := (List.forall₂_cons.mp (block.forall₂_pieces axis start (size :: rest))).1
    exact .cons (hfirst.1.trans hsize) (ih hrest)

/-- The lengths of the pieces along the dimension add up to their sizes. -/
theorem foldl_length {shape : List Nat} (haxis : axis < shape.length)
    (hothers : List.Forall₂ (fun other size ↦ other.shape = shape.set axis size) others sizes)
    (total : Nat) :
    others.foldl (fun length other ↦ length + other.shape.getD axis 0) total =
      total + sizes.sum := by
  induction hothers generalizing total with
  | nil => rfl
  | cons hfirst _ ih =>
    rw [List.foldl_cons, ih, hfirst, getD_set_self haxis, List.sum_cons, Nat.add_assoc]

variable [Inhabited α]

/-- Looked up in the pieces from a place on, an element is that of the block behind this place. -/
theorem find_pieces (haxis : axis < block.shape.length)
    (hothers : List.Forall₂ Agrees others (block.pieces axis start sizes)) {index : List Nat}
    (hindex : Shape.Contains (block.shape.set axis sizes.sum) index) :
    find axis others index = block.get (index.set axis (index.getD axis 0 + start)) := by
  have hset (length : Nat) : axis < (block.shape.set axis length).length := by simpa using haxis
  -- the first piece has the element, or it is behind that piece by the size of the piece
  induction sizes generalizing start index others with
  | nil =>
    have hbelow := Shape.getD_lt_of_contains hindex (hset _)
    rw [getD_set_self haxis] at hbelow
    cases hbelow
  | cons size rest ih =>
    have hlong : index.length = block.shape.length := by
      simpa using Shape.length_eq_of_contains hindex
    have hbelow := Shape.getD_lt_of_contains hindex (hset _)
    rw [getD_set_self haxis, List.sum_cons] at hbelow
    obtain ⟨first, later, hfirst, hlater, rfl⟩ := List.forall₂_cons_right_iff.mp hothers
    have hshape : (block.slice axis start (start + size)).shape = block.shape.set axis size :=
      congrArg (block.shape.set axis) (Nat.add_sub_cancel_left start size)
    rw [find, hfirst.1, hshape, getD_set_self haxis]
    split_ifs with hreaches
    · have hown := Shape.contains_set hindex hreaches
      rw [set_getD_self] at hown
      exact hfirst.2 index (hshape ▸ hown)
    · have hbehind : index.getD axis 0 - size < rest.sum := by omega
      rw [ih hlater (Shape.contains_set hindex hbehind), getD_set_self (hlong ▸ haxis),
        List.set_set]
      congr 2
      omega

/-- Joined, blocks that agree with the pieces are the block. -/
theorem concatenate_pieces {dim : Int} (hdim : Shape.dimension? block.shape.length dim = some axis)
    (haxis : axis < block.shape.length) (hsizes : sizes ≠ [])
    (hsum : sizes.sum = block.shape.getD axis 0)
    (hothers : List.Forall₂ Agrees others (block.pieces axis 0 sizes)) :
    ∃ joined, concatenate others dim = .ok joined ∧ joined.Agrees block := by
  have hshapes := shape_of_agrees hothers
  have hlength := foldl_length haxis hshapes 0
  have hbox : block.shape.set axis sizes.sum = block.shape := by
    rw [hsum, set_getD_self]
  obtain ⟨first, later, rfl⟩ : ∃ first later, others = first :: later := by
    refine List.exists_cons_of_ne_nil fun hnone ↦ hsizes ?_
    rw [← List.length_eq_zero_iff, ← hshapes.length_eq, hnone, List.length_nil]
  have hbut : ∀ other ∈ first :: later, other.shape.set axis 0 = block.shape.set axis 0 :=
    ((List.forall₂_and_left _ _).mp (hshapes.imp fun _ _ hshape ↦
      ⟨by rw [hshape, List.set_set], hshape⟩)).1
  -- the first piece decides about the rank and the other lengths, as the block does
  have hfirst := hbut first (List.mem_cons_self ..)
  have hrank : first.shape.length = block.shape.length := by
    simpa using congrArg List.length hfirst
  have hsame : ((first :: later).all fun other ↦
      other.shape.set axis 0 = first.shape.set axis 0) = true := by
    simp only [List.all_eq_true, decide_eq_true_eq]
    exact fun other hother ↦ (hbut other hother).trans hfirst.symm
  have hshape : first.shape.set axis sizes.sum = block.shape := by
    have hset := congrArg (fun shape ↦ List.set shape axis sizes.sum) hfirst
    simp only [List.set_set] at hset
    exact hset.trans hbox
  unfold concatenate
  dsimp only
  rw [if_neg (by rw [hrank]; exact Nat.ne_of_gt (Nat.zero_lt_of_lt haxis)), hrank, hdim]
  dsimp only
  rw [if_pos hsame, hlength, Nat.zero_add, hshape]
  refine ⟨_, rfl, rfl, fun index hindex ↦ ?_⟩
  show find axis (first :: later) index = block.get index
  rw [find_pieces haxis hothers (hbox.symm ▸ hindex), Nat.add_zero, set_getD_self]

end Block

end Handover
