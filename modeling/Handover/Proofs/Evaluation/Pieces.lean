import Handover.Proofs.Evaluation.Numeric

/-!
# Pieces of a tensor

Splitting cuts a tensor into as many pieces as sizes are given (`length_piecesOf`), as long as the
sizes are a list or a tuple without further lists inside (`Attr.flatLength?`): the sizes of nested
lists all count, and any other value leaves one piece. Every piece is an array.
-/

set_option autoImplicit false
set_option relaxedAutoImplicit false

namespace Handover

/-- Whether a value is a list or a tuple. -/
def Attr.isCollection : Attr → Bool
  | list _ | tuple _ _ => true
  | _ => false

/-- The number of items of a list or a tuple of which no item is a list or a tuple. -/
def Attr.flatLength? : Attr → Option Nat
  | list items | tuple items _ =>
    if items.all fun item ↦ !item.isCollection then some items.length else none
  | _ => none

/-! ### Flat collections as values -/

namespace Value

theorem shape_ofAttr_item {item : Attr} (hitem : item.isCollection = false) :
    (ofAttr item).shape = .ok [] := by
  cases item with
  | list _ | tuple _ => cases hitem
  | _ => rfl

theorem leaves_ofAttr_item {item : Attr} (hitem : item.isCollection = false) :
    (ofAttr item).leaves = [ofAttr item] := by
  cases item with
  | list _ | tuple _ => cases hitem
  | _ => rfl

theorem itemShapes_ofAttrs {items : List Attr}
    (hitems : ∀ item ∈ items, item.isCollection = false) :
    itemShapes (ofAttrs items) = .ok (List.replicate items.length []) := by
  induction items with
  | nil => rfl
  | cons item rest ih =>
    rw [List.forall_mem_cons] at hitems
    rw [ofAttrs, itemShapes, shape_ofAttr_item hitems.1, ih hitems.2]
    rfl

theorem itemLeaves_ofAttrs {items : List Attr}
    (hitems : ∀ item ∈ items, item.isCollection = false) :
    itemLeaves (ofAttrs items) = items.map ofAttr := by
  induction items with
  | nil => rfl
  | cons item rest ih =>
    rw [List.forall_mem_cons] at hitems
    rw [ofAttrs, itemLeaves, leaves_ofAttr_item hitems.1, ih hitems.2]
    rfl

theorem collectionShape_replicate (count : Nat) :
    collectionShape (List.replicate count []) = .ok [count] := by
  cases count with
  | zero => rfl
  | succ count => simp [List.replicate_succ, collectionShape]

/-- A flat collection has one dimension, along which its items stand. -/
theorem shape_and_leaves_of_flatLength {value : Attr} {count : Nat}
    (hflat : value.flatLength? = some count) :
    (ofAttr value).shape = .ok [count] ∧ (ofAttr value).leaves.length = count := by
  cases value with
  | list items | tuple items =>
    rw [Attr.flatLength?] at hflat
    split_ifs at hflat with hall
    obtain rfl := Option.some.inj hflat
    have hitems : ∀ item ∈ items, item.isCollection = false := by simpa using hall
    rw [ofAttr, shape, leaves, itemShapes_ofAttrs hitems, itemLeaves_ofAttrs hitems,
      List.length_map]
    exact ⟨collectionShape_replicate items.length, rfl⟩
  | _ => cases hflat

/-- Gathering keeps the shape. -/
theorem shape_of_gather {value : Value} {gathered : Gathered}
    (hgathered : value.gather = .ok gathered) : value.shape = .ok gathered.shape := by
  unfold gather at hgathered
  split at hgathered
  · obtain rfl := Except.ok.inj hgathered
    rfl
  · obtain ⟨shape, hshape, hrest⟩ := Result.bind_eq_ok_iff.mp hgathered
    rw [hshape]
    split_ifs at hrest
    · cases hrest
    split at hrest
    · obtain rfl := Except.ok.inj hrest
      rfl
    · obtain rfl := Except.ok.inj hrest
      rfl
    · split at hrest
      · next tensor htensor =>
        obtain rfl := Except.ok.inj hrest
        unfold Tensor.ofElements? at htensor
        split_ifs at htensor
        obtain rfl := Option.some.inj htensor
        rfl
      · cases hrest

end Value

/-! ### Cut points -/

theorem length_runningTotals {t : ElementType} (total : Word t) (words : List (Word t)) :
    (runningTotals total words).length = words.length := by
  induction words generalizing total with
  | nil => rfl
  | cons word rest ih => rw [runningTotals, List.length_cons, ih, List.length_cons]

theorem length_runningValues {total : Value} {values totals : List Value}
    (htotals : runningValues total values = .ok totals) :
    totals.length = values.length + 1 := by
  induction values generalizing total totals with
  | nil =>
    obtain rfl := Except.ok.inj htotals
    rfl
  | cons value rest ih =>
    obtain ⟨next, _, hrest⟩ := Result.bind_eq_ok_iff.mp htotals
    obtain ⟨others, hothers, htotals⟩ := Result.bind_eq_ok_iff.mp hrest
    obtain rfl := Except.ok.inj htotals
    rw [List.length_cons, ih hothers, List.length_cons]

/-- A tensor is cut once less than it has pieces. -/
theorem length_cutPoints {sizes : Attr} {count : Nat} (hflat : sizes.flatLength? = some count)
    {points : List (Option Int)} (hpoints : cutPoints (.ofAttr sizes) = .ok points) :
    points.length = count - 1 := by
  obtain ⟨hshape, hleaves⟩ := Value.shape_and_leaves_of_flatLength hflat
  obtain ⟨gathered, hgathered, hrest⟩ := Result.bind_eq_ok_iff.mp hpoints
  have hsame := Value.shape_of_gather hgathered
  rw [hshape] at hsame
  cases gathered with
  | numbers numbers =>
    obtain rfl := Except.ok.inj hrest
    have hlength : numbers.tensor.toList.length = count := by
      have hnumbers : numbers.tensor.shape = [count] := (Except.ok.inj hsame).symm
      rw [Tensor.toList, Array.length_toList, numbers.tensor.size_eq, hnumbers]
      exact Nat.mul_one count
    rw [List.length_map, List.length_dropLast, length_runningTotals, List.length_map, hlength]
  | texts _ => cases hrest
  | things _ =>
    dsimp only at hrest
    split at hrest
    · next hnone =>
      obtain rfl := Except.ok.inj hrest
      rw [hnone] at hleaves
      rw [← hleaves]
      rfl
    · next first rest hsome =>
      obtain ⟨totals, htotals, hrest⟩ := Result.bind_eq_ok_iff.mp hrest
      obtain rfl := Except.ok.inj hrest
      rw [hsome, List.length_cons] at hleaves
      rw [List.length_map, List.length_dropLast, length_runningValues htotals, hleaves]

/-! ### Pieces -/

theorem length_of_mapM_id {α : Type} {options : List (Option α)} {values : List α}
    (hvalues : options.mapM id = some values) : values.length = options.length := by
  induction options generalizing values with
  | nil =>
    obtain rfl := Option.some.inj hvalues
    rfl
  | cons option rest ih =>
    rw [List.mapM_cons] at hvalues
    obtain ⟨value, _, hrest⟩ := Option.bind_eq_some_iff.mp hvalues
    obtain ⟨others, hothers, hvalues⟩ := Option.bind_eq_some_iff.mp hrest
    obtain rfl := Option.some.inj hvalues
    rw [List.length_cons, ih hothers, List.length_cons]

theorem Strided.length_cut (operand : Strided) (axis : Nat) (points : List Int) (stop : Nat) :
    (operand.cut axis points stop).length = points.length + 1 := by
  simp [Strided.cut, Block.cut]

namespace Evaluation

variable {operands pieces : List Value} {attrs : Attrs}

/-- What splitting leaves: the parts of one tensor between the points where it is cut. -/
theorem exists_cut_of_piecesOf (hpieces : piecesOf operands attrs = .ok pieces) :
    ∃ sizes points cuts x axis stop, attrs.get "sizes" = .ok sizes ∧
      cutPoints (.ofAttr sizes) = .ok points ∧ points.mapM id = some cuts ∧
      pieces = (Strided.cut x axis cuts stop).map Value.array := by
  obtain ⟨sizes, hsizes, hrest⟩ := Result.bind_eq_ok_iff.mp hpieces
  obtain ⟨points, hpoints, hrest⟩ := Result.bind_eq_ok_iff.mp hrest
  obtain ⟨_, _, hrest⟩ := Result.bind_eq_ok_iff.mp hrest
  obtain ⟨_, _, hrest⟩ := Result.bind_eq_ok_iff.mp hrest
  obtain ⟨⟨gathered, axis, stop⟩, _, hrest⟩ := Result.bind_eq_ok_iff.mp hrest
  dsimp only at hrest
  split at hrest
  · next cuts x hcuts _ =>
    exact ⟨sizes, points, cuts, x, axis, stop, hsizes, hpoints, hcuts, (Except.ok.inj hrest).symm⟩
  · cases hrest

theorem numeric_of_piecesOf (hpieces : piecesOf operands attrs = .ok pieces) :
    ∀ piece ∈ pieces, piece.isNumeric = true := by
  obtain ⟨_, _, _, _, _, _, _, _, _, rfl⟩ := exists_cut_of_piecesOf hpieces
  intro piece hpiece
  obtain ⟨value, _, rfl⟩ := List.mem_map.mp hpiece
  rfl

/-- Splitting leaves as many pieces as there are sizes, and one if there are none. -/
theorem length_piecesOf {sizes : Attr} {count : Nat} (hsizes : attrs.find? "sizes" = some sizes)
    (hflat : sizes.flatLength? = some count) (hpieces : piecesOf operands attrs = .ok pieces) :
    pieces.length = max count 1 := by
  obtain ⟨found, points, cuts, x, axis, stop, hfound, hpoints, hcuts, rfl⟩ :=
    exists_cut_of_piecesOf hpieces
  rw [Attrs.get, hsizes] at hfound
  obtain rfl := Except.ok.inj hfound
  rw [List.length_map, Strided.length_cut, length_of_mapM_id hcuts, length_cutPoints hflat hpoints]
  omega

end Evaluation

end Handover
