import Handover.Evaluation.Operators
import Handover.Proofs.Evaluation.Blocks
import Handover.Proofs.Evaluation.Pieces
import Handover.Proofs.Evaluation.Stored
import Handover.Proofs.Storage.Weights

/-!
# Joining what was split

Splitting turns the sizes of the pieces into running totals, drops the last of them and cuts the
tensor at the others: every running total is a number of the word that it is formed in
(`cutPoints_sizes`), and so the tensor is cut where one piece ends and the next one begins.
Splitting leaves pieces of the given sizes, and joined along the same dimension these are the tensor
again, its byte order apart (`cat_split`): a joined tensor has the lowest byte of each element
first, whatever the pieces had (`byte_order_not_restored`).
-/

set_option autoImplicit false
set_option relaxedAutoImplicit false

namespace Handover

/-! ### Tensors as blocks -/

section Tensors

theorem Tensor.tabulate_congr {t : ElementType} {shape : List Nat}
    {element other : List Nat → Word t}
    (hsame : ∀ index, Shape.Contains shape index → element index = other index) :
    Tensor.tabulate t shape element = Tensor.tabulate t shape other := by
  unfold Tensor.tabulate
  congr 1
  exact congrArg Array.ofFn (funext fun place ↦ hsame _ (Shape.contains_index place.isLt))

/-- The tensor of a block that agrees with the elements of a tensor is that tensor. -/
theorem Tensor.ofBlock_of_agrees {tensor : Tensor} {block : Block (Word tensor.elementType)}
    (hagrees : block.Agrees tensor.block) : Tensor.ofBlock tensor.elementType block = tensor := by
  obtain ⟨hshape, hget⟩ := hagrees
  show Tensor.tabulate tensor.elementType block.shape block.get = tensor
  rw [hshape]
  exact (Tensor.tabulate_congr hget).trans tensor.eq_tabulate.symm

/-- Read as words of its own type, the tensor of a block agrees with the block. -/
theorem Tensor.agrees_blockAs_ofBlock (t : ElementType) (block : Block (Word t)) :
    ((Tensor.ofBlock t block).blockAs t).Agrees block := by
  refine ⟨rfl, fun index hindex ↦ ?_⟩
  have hget : (Tensor.ofBlock t block).get index = block.get index :=
    Tensor.get_tabulate _ hindex
  show (if t = t then Word.ofBits t ((Tensor.ofBlock t block).get index).toNat else _) = _
  rw [if_pos rfl, hget]
  exact Word.ofBits_toNat _

theorem promoteAll_replicate (t : ElementType) (count : Nat) :
    ElementType.promoteAll t (List.replicate count t) = t := by
  have hpromote : t.promote t = t := by cases t <;> rfl
  have hbroadest : ElementType.broadest t (List.replicate count t) = t := by
    induction count with
    | zero => rfl
    | succ count ih => simpa [ElementType.broadest, List.replicate_succ] using ih
  have hfold (count : Nat) : (List.replicate count t).foldl
      (fun common other ↦ common.promote (t.promote other)) t = t := by
    induction count with
    | zero => rfl
    | succ count ih => rw [List.replicate_succ, List.foldl_cons, hpromote, hpromote, ih]
  unfold ElementType.promoteAll
  rw [hbroadest]
  exact hfold (count + 1)

end Tensors

namespace Strided

theorem typeName_eq_name_iff (x : Strided) :
    x.typeName = x.tensor.elementType.name ↔ x.isReversed = false := by
  have hmarked (t : ElementType) : ">" ++ t.code ≠ t.name := by cases t <;> decide
  unfold typeName
  cases x.isReversed with
  | false => exact iff_of_true rfl rfl
  | true => exact iff_of_false (hmarked _) Bool.noConfusion

variable {x : Strided} {axis : Nat} {sizes : List Nat}

/-- The pieces of a tensor along a dimension that have some sizes. -/
def pieces (x : Strided) (axis : Nat) (sizes : List Nat) : List Strided :=
  (x.tensor.block.pieces axis 0 sizes).map fun piece ↦
    { x with tensor := .ofBlock x.tensor.elementType piece }

theorem cut_ends (hsizes : sizes ≠ []) (hsum : sizes.sum = x.tensor.shape.getD axis 0) :
    x.cut axis ((ends 0 sizes).dropLast.map Int.ofNat) (x.tensor.shape.getD axis 0) =
      x.pieces axis sizes :=
  congrArg (List.map _) (Block.cut_ends hsizes hsum)

/-- Pieces have the type of the tensor and its byte order, their sizes as lengths along the
dimension and the lengths of the tensor along the others. -/
theorem forall₂_pieces (x : Strided) (axis : Nat) (sizes : List Nat) :
    List.Forall₂ (fun piece size ↦ piece.typeName = x.typeName ∧
      piece.tensor.shape = x.tensor.shape.set axis size) (x.pieces axis sizes) sizes :=
  List.forall₂_map_left_iff.mpr ((x.tensor.block.forall₂_pieces axis 0 sizes).imp
    fun _ _ hshape ↦ ⟨rfl, hshape⟩)

/-- Pieces are brought to the type that they have. -/
theorem commonType_pieces (hsizes : sizes ≠ []) :
    commonType (x.pieces axis sizes) = x.tensor.elementType := by
  obtain ⟨size, rest, rfl⟩ := List.exists_cons_of_ne_nil hsizes
  have hothers : ((x.pieces axis (size :: rest)).tail.map fun part ↦ part.tensor.elementType) =
      List.replicate (x.pieces axis (size :: rest)).tail.length x.tensor.elementType := by
    refine List.eq_replicate_iff.mpr ⟨List.length_map .., fun t ht ↦ ?_⟩
    obtain ⟨part, hpart, rfl⟩ := List.mem_map.mp ht
    obtain ⟨piece, -, rfl⟩ := List.mem_map.mp (List.mem_of_mem_tail hpart)
    rfl
  show ElementType.promoteAll x.tensor.elementType
    ((x.pieces axis (size :: rest)).tail.map fun part ↦ part.tensor.elementType) = _
  rw [hothers, promoteAll_replicate]

/-- Joined, the pieces are the tensor with the lowest byte of each element first. -/
theorem concatenate_pieces {dim : Int} (hdim : Shape.dimension? x.rank dim = some axis)
    (haxis : axis < x.rank) (hsizes : sizes ≠ []) (hsum : sizes.sum = x.tensor.shape.getD axis 0) :
    ∃ joined, Strided.concatenate (x.pieces axis sizes) dim = .ok joined ∧
      joined.tensor = x.tensor ∧ joined.highestFirst = false := by
  have hagrees : List.Forall₂ Block.Agrees
      ((x.pieces axis sizes).map fun part ↦ part.tensor.blockAs x.tensor.elementType)
      (x.tensor.block.pieces axis 0 sizes) := by
    rw [pieces, List.map_map, List.forall₂_map_left_iff, List.forall₂_same]
    exact fun piece _ ↦ Tensor.agrees_blockAs_ofBlock x.tensor.elementType piece
  obtain ⟨joined, hjoined, hblock⟩ :=
    x.tensor.block.concatenate_pieces hdim haxis hsizes hsum hagrees
  unfold concatenate
  dsimp only
  rw [commonType_pieces hsizes, hjoined]
  exact ⟨_, rfl, Tensor.ofBlock_of_agrees hblock, rfl⟩

end Strided

/-! ### Running totals of sizes -/

theorem toInt_ofInt_natCast {number : Nat} (hnumber : number ≤ Shape.byteLimit) :
    (Word.ofInt .int64 number).toInt = number := by
  have hlimit : Shape.byteLimit = 2 ^ 63 - 1 := rfl
  show BitVec.toInt (BitVec.ofInt 64 number) = number
  rw [BitVec.toInt_ofInt, Int.bmod_def]
  omega

/-- Added up in 64 bits, sizes that fit a dimension are where the pieces end. -/
theorem runningTotals_sizes {start : Nat} {sizes : List Nat}
    (hlimit : start + sizes.sum ≤ Shape.byteLimit) :
    (runningTotals (Word.ofInt .int64 start)
      (sizes.map fun size : Nat ↦ Word.ofInt .int64 size)).map Word.toInt =
      (ends start sizes).map Int.ofNat := by
  induction sizes generalizing start with
  | nil => rfl
  | cons size rest ih =>
    rw [List.sum_cons] at hlimit
    have hadd : (Word.ofInt .int64 start).add (Word.ofInt .int64 size) =
        Word.ofInt .int64 (start + size : Nat) := by
      show BitVec.ofInt 64 start + BitVec.ofInt 64 size = BitVec.ofInt 64 (start + size : Nat)
      rw [← BitVec.ofInt_add, Int.natCast_add]
    have hfirst : start + size ≤ Shape.byteLimit := by omega
    have hrest : start + size + rest.sum ≤ Shape.byteLimit := by omega
    rw [List.map_cons, runningTotals, hadd, List.map_cons, ih hrest, toInt_ofInt_natCast hfirst,
      ends_cons]
    rfl

theorem convert_int64 (word : Word .int64) : word.convert .int64 = word := BitVec.ofInt_toInt

/-- A size is a word of 64 bits. -/
theorem leafWord_size {size : Nat} (hsize : size ≤ Shape.byteLimit) :
    Value.leafWord .int64 (.plain (.int size)) = Word.ofInt .int64 size := by
  have hown : (Attr.int size).ownScalar? = some ⟨.int64, Word.ofInt .int64 size⟩ := by
    rw [Attr.ownScalar?, if_pos (holds_natCast hsize)]
  rw [Value.leafWord, hown, Option.map_some, Option.getD_some, convert_int64]

section Sizes

variable {sizes : List Nat} (hheld : ∀ size ∈ sizes, size ≤ Shape.byteLimit)

include hheld

theorem itemIngredients_sizes :
    Value.itemIngredients (Value.ofAttrs (sizes.map fun size : Nat ↦ Attr.int size)) =
      List.replicate sizes.length (.number .int64) := by
  induction sizes with
  | nil => rfl
  | cons size rest ih =>
    rw [List.forall_mem_cons] at hheld
    rw [List.map_cons, Value.ofAttrs, Value.itemIngredients, ih hheld.2, List.length_cons,
      List.replicate_succ]
    simp [Value.ofAttr, Value.ingredients, Value.leafIngredient, Attr.ownScalar?,
      holds_natCast hheld.1]

theorem leafWords_sizes :
    (Value.itemLeaves (Value.ofAttrs (sizes.map fun size : Nat ↦ Attr.int size))).map
      (Value.leafWord .int64) = sizes.map fun size : Nat ↦ Word.ofInt .int64 size := by
  induction sizes with
  | nil => rfl
  | cons size rest ih =>
    rw [List.forall_mem_cons] at hheld
    rw [List.map_cons, List.map_cons, Value.ofAttrs, Value.itemLeaves, List.map_append, ih hheld.2]
    have hplain : (Value.ofAttr (.int size)).leaves = [.plain (.int size)] := rfl
    rw [hplain, List.map_cons, leafWord_size hheld.1]
    rfl

/-- A list of sizes is an array of integers of 64 bits. -/
theorem gather_sizes (hsizes : sizes ≠ []) :
    ∃ tensor, (Value.ofAttr (.list (sizes.map fun size : Nat ↦ Attr.int size))).gather =
        .ok (.numbers (.ofTensor tensor)) ∧
      Tensor.ofElements? .int64 [sizes.length] (sizes.map fun size : Nat ↦ Word.ofInt .int64 size) =
        some tensor := by
  have hflat : (Attr.list (sizes.map fun size : Nat ↦ Attr.int size)).flatLength? =
      some sizes.length := by
    simp [Attr.flatLength?, Attr.isCollection]
  obtain ⟨tensor, htensor⟩ : ∃ tensor, Tensor.ofElements? .int64 [sizes.length]
      (sizes.map fun size : Nat ↦ Word.ofInt .int64 size) = some tensor :=
    ⟨_, dif_pos (by simp [Shape.size])⟩
  have hingredient : (Value.ofAttr (.list (sizes.map fun size : Nat ↦ Attr.int size))).ingredient =
      .number .int64 := by
    obtain ⟨count, hcount⟩ := Nat.exists_eq_succ_of_ne_zero (List.length_pos_of_ne_nil hsizes).ne'
    unfold Value.ingredient
    rw [Value.ofAttr, Value.ingredients, itemIngredients_sizes hheld, hcount, List.replicate_succ]
    dsimp only
    generalize count = count
    induction count with
    | zero => rfl
    | succ count ih => exact ih
  obtain ⟨hshape, -⟩ := Value.shape_and_leaves_of_flatLength hflat
  have hleaves := leafWords_sizes hheld
  refine ⟨tensor, ?_, htensor⟩
  rw [Value.gather_of_not_array rfl, hshape, Result.ok_bind, hingredient]
  rw [if_neg (by simp [Attr.dimensionLimit])]
  dsimp only
  rw [Value.ofAttr, Value.leaves, hleaves, htensor]
  rfl

end Sizes

theorem cutPoints_sizes {sizes : List Nat} (hsizes : sizes ≠ [])
    (hlimit : sizes.sum ≤ Shape.byteLimit) :
    cutPoints (.ofAttr (.list (sizes.map fun size : Nat ↦ Attr.int size))) =
      .ok ((ends 0 sizes).dropLast.map fun place : Nat ↦ some (place : Int)) := by
  have hheld : ∀ size ∈ sizes, size ≤ Shape.byteLimit := fun size hsize ↦
    (List.single_le_sum (by simp) size hsize).trans hlimit
  obtain ⟨tensor, hgather, htensor⟩ := gather_sizes hheld hsizes
  unfold Tensor.ofElements? at htensor
  split_ifs at htensor
  obtain rfl := Option.some.inj htensor
  have htotals := runningTotals_sizes (by omega : 0 + sizes.sum ≤ Shape.byteLimit)
  have hwords : (sizes.map fun size : Nat ↦ Word.ofInt .int64 size).map (Word.convert .int64) =
      sizes.map fun size : Nat ↦ Word.ofInt .int64 size := by
    rw [List.map_map]
    exact List.map_congr_left fun size _ ↦ convert_int64 _
  unfold cutPoints
  rw [hgather, Result.ok_bind]
  show Except.ok (((runningTotals (Word.ofInt .int64 (0 : Nat))
    ((sizes.map fun size : Nat ↦ Word.ofInt .int64 size).map (Word.convert .int64))).dropLast).map
      fun total ↦ some total.toInt) = _
  rw [hwords]
  have hdropped := congrArg List.dropLast htotals
  rw [← List.map_dropLast, ← List.map_dropLast] at hdropped
  have hsome := congrArg (List.map some) hdropped
  rw [List.map_map, List.map_map] at hsome
  exact congrArg Except.ok hsome

/-! ### Splitting and joining -/

namespace Evaluation

variable {x : Strided} {axis : Nat} {dim : Int} {sizes : List Nat} {attrs : Attrs}

/-- A dimension is counted from the front or from the end. -/
theorem dimension?_of_counted {rank : Nat} (haxis : axis < rank)
    (hdim : dim = axis ∨ dim = axis - rank) : Shape.dimension? rank dim = some axis := by
  have hshifted : (if dim < 0 then dim + (rank : Int) else dim) = axis := by
    rcases hdim with rfl | rfl
    · exact if_neg (by omega)
    · rw [if_pos (by omega)]
      omega
  unfold Shape.dimension?
  dsimp only
  rw [hshifted, if_pos (by omega), Int.toNat_natCast]

theorem asAxisNumber_of_counted {rank : Nat} (hrank : rank ≤ Attr.dimensionLimit)
    (haxis : axis < rank) (hdim : dim = axis ∨ dim = axis - rank) :
    (Attr.int dim).asAxisNumber = .ok dim := by
  have hlimit : Attr.dimensionLimit = 64 := rfl
  have hlong : ElementType.int64.holds dim = true := by
    simp [ElementType.holds, ElementType.kind]
    omega
  have hshort : ElementType.int32.holds dim = true := by
    simp [ElementType.holds, ElementType.kind]
    omega
  simp [Attr.asAxisNumber, Attr.whole?, hlong, hshort]

theorem mapM_id_map_some {α : Type} (values : List α) :
    (values.map some).mapM id = some values := by
  induction values with
  | nil => rfl
  | cons value rest ih => simp [List.mapM_cons, ih]

theorem mapM_gatherNumbers_array (parts : List Strided) (flaw : Flaw) :
    (parts.map Value.array).mapM (fun value ↦ value.gatherNumbers flaw) = .ok parts := by
  induction parts with
  | nil => rfl
  | cons part rest ih =>
    rw [List.map_cons, List.mapM_cons, ih]
    rfl

theorem get_of_find? {name : String} {value : Attr} (hvalue : attrs.find? name = some value) :
    attrs.get name = .ok value := by
  rw [Attrs.get, hvalue]

/-- Sizes that fill a dimension add up to a number of a word. -/
theorem sum_le_byteLimit (hfits : x.tensor.Fits) (haxis : axis < x.rank)
    (hsum : sizes.sum = x.tensor.shape.getD axis 0) : sizes.sum ≤ Shape.byteLimit := by
  rw [hsum, List.getD_eq_getElem _ _ haxis]
  exact Shape.le_of_mem_of_fits (Encoding.byteCount_pos _) hfits.2 (List.getElem_mem haxis)

/-- Splitting leaves the pieces of the given sizes. -/
theorem evaluate_split (hfits : x.tensor.Fits) (haxis : axis < x.rank)
    (hdim : dim = axis ∨ dim = axis - x.rank) (hsizes : sizes ≠ [])
    (hsum : sizes.sum = x.tensor.shape.getD axis 0)
    (hlisted : attrs.find? "sizes" = some (.list (sizes.map fun size : Nat ↦ Attr.int size)))
    (halong : attrs.find? "dim" = some (.int dim)) (others : List Value) :
    Op.evaluate .split (.array x :: others) attrs =
      .ok (.list ((x.pieces axis sizes).map Value.array)) := by
  have hlimit := sum_le_byteLimit hfits haxis hsum
  have hrange : cutRange (.array x) (.int dim) =
      .ok (.numbers x, axis, x.tensor.shape.getD axis 0) := by
    simp [cutRange, Attr.asCutDimension, Attr.dimensionNumber?, Attr.whole?,
      dimension?_of_counted haxis hdim]
  have hpieces : piecesOf (.array x :: others) attrs =
      .ok ((x.pieces axis sizes).map Value.array) := by
    have hcuts := mapM_id_map_some ((ends 0 sizes).dropLast.map Int.ofNat)
    rw [List.map_map] at hcuts
    have hfirst : Value.operand (.array x :: others) 0 = .ok (.array x) := rfl
    unfold piecesOf
    rw [get_of_find? hlisted, Result.ok_bind, cutPoints_sizes hsizes hlimit, Result.ok_bind, hfirst,
      Result.ok_bind, get_of_find? halong, Result.ok_bind, hrange, Result.ok_bind]
    dsimp only
    rw [show (fun place : Nat ↦ some (place : Int)) = some ∘ Int.ofNat from rfl, hcuts,
      ← Strided.cut_ends hsizes hsum]
    rfl
  show (piecesOf (.array x :: others) attrs >>= fun pieces ↦ pure (Value.list pieces)) = _
  rw [hpieces]
  rfl

/-- Joining the pieces along the dimension gives the tensor with the lowest byte of each element
first. -/
theorem evaluate_cat (hfits : x.tensor.Fits) (haxis : axis < x.rank)
    (hdim : dim = axis ∨ dim = axis - x.rank) (hsizes : sizes ≠ [])
    (hsum : sizes.sum = x.tensor.shape.getD axis 0)
    (halong : attrs.find? "dim" = some (.int dim)) :
    ∃ joined, Op.evaluate .cat ((x.pieces axis sizes).map Value.array) attrs =
        .ok (.array joined) ∧ joined.tensor = x.tensor ∧ joined.highestFirst = false := by
  obtain ⟨joined, hjoined, hsame⟩ :=
    Strided.concatenate_pieces (dimension?_of_counted haxis hdim) haxis hsizes hsum
  refine ⟨joined, ?_, hsame⟩
  show join ((x.pieces axis sizes).map Value.array) attrs = .ok (.array joined)
  unfold join
  rw [get_of_find? halong, Result.ok_bind]
  dsimp only
  rw [asAxisNumber_of_counted hfits.1 haxis hdim, Result.ok_bind, mapM_gatherNumbers_array,
    Result.ok_bind, hjoined]
  rfl

end Evaluation

/-- Joining undoes splitting, but for the order of bytes. A tensor is split along a dimension into
as many pieces as there are sizes, each with its size as the length along that dimension and
everything else as in the tensor. The pieces joined in order along the same dimension are the
tensor: they have its shape and its elements, and they have its type up to the order of bytes, so
the name of its type exactly if the tensor had the lowest byte of each element first. The same cuts
made in a block of the same shape and joined in the same way are the block, whatever the type of its
elements.

Assumes: a tensor that keeps to the limits of tensors, a dimension counted from the front or the
end, and sizes, at least one, that add up to the length of the dimension. -/
theorem cat_split (x : Strided) (hfits : x.tensor.Fits) {axis : Nat} (haxis : axis < x.rank)
    {dim : Int} (hdim : dim = axis ∨ dim = axis - x.rank) {sizes : List Nat} (hsizes : sizes ≠ [])
    (hsum : sizes.sum = x.tensor.shape.getD axis 0) {splitAttrs catAttrs : Attrs}
    (hlisted : splitAttrs.find? "sizes" = some (.list (sizes.map fun size : Nat ↦ Attr.int size)))
    (halong : splitAttrs.find? "dim" = some (.int dim))
    (hjoined : catAttrs.find? "dim" = some (.int dim)) (others : List Value) :
    (∃ pieces : List Strided,
      Op.evaluate .split (.array x :: others) splitAttrs = .ok (.list (pieces.map Value.array)) ∧
      pieces.length = sizes.length ∧
      List.Forall₂ (fun piece size ↦ piece.typeName = x.typeName ∧
        piece.tensor.shape = x.tensor.shape.set axis size) pieces sizes ∧
      ∃ joined, Op.evaluate .cat (pieces.map Value.array) catAttrs = .ok (.array joined) ∧
        joined.tensor = x.tensor ∧ (joined.typeName = x.typeName ↔ x.isReversed = false)) ∧
    ∃ points, cutPoints (.ofAttr (.list (sizes.map fun size : Nat ↦ Attr.int size))) =
        .ok (points.map some) ∧
      ∀ (α : Type) [Inhabited α] (block : Block α), block.shape = x.tensor.shape →
        List.Forall₂ (fun piece size ↦ piece.shape = block.shape.set axis size)
          (block.cut axis points (block.shape.getD axis 0)) sizes ∧
        ∃ joined, Block.concatenate (block.cut axis points (block.shape.getD axis 0)) dim =
            .ok joined ∧ joined.Agrees block := by
  have hpieces := x.forall₂_pieces axis sizes
  obtain ⟨joined, hcat, htensor, hlowest⟩ :=
    Evaluation.evaluate_cat hfits haxis hdim hsizes hsum hjoined
  have hname : joined.typeName = x.typeName ↔ x.isReversed = false := by
    rw [joined.typeName_eq_name_iff.mpr (by rw [Strided.isReversed, hlowest, Bool.false_and]),
      htensor, eq_comm, x.typeName_eq_name_iff]
  refine ⟨⟨x.pieces axis sizes,
    Evaluation.evaluate_split hfits haxis hdim hsizes hsum hlisted halong others,
    hpieces.length_eq, hpieces, joined, hcat, htensor, hname⟩, ?_⟩
  refine ⟨(ends 0 sizes).dropLast.map Int.ofNat, ?_, fun α _ block hshape ↦ ?_⟩
  · rw [List.map_map]
    exact cutPoints_sizes hsizes (Evaluation.sum_le_byteLimit hfits haxis hsum)
  · rw [← hshape] at hsum
    have hrank : block.shape.length = x.rank := congrArg List.length hshape
    rw [Block.cut_ends hsizes hsum]
    exact ⟨block.forall₂_pieces axis 0 sizes, Block.concatenate_pieces
      (hrank ▸ Evaluation.dimension?_of_counted haxis hdim) (hrank ▸ haxis) hsizes hsum
      (List.forall₂_same.mpr fun piece _ ↦ .refl piece)⟩

/-- The attributes of a split into pieces of some sizes along a dimension. -/
def sizedAttrs (sizes : List Attr) (dim : Int) : Attrs :=
  .ofList [("sizes", .list sizes), ("dim", .int dim)]

/-- The attributes of a join along a dimension. -/
def joinAttrs (dim : Int) : Attrs := .ofList [("dim", .int dim)]

/-- Two rows of four truth values, one of which is a word that is neither zero nor one. -/
def truthRows : Tensor where
  elementType := .bool
  shape := [2, 4]
  elements := #[0, 1, 2, 0, 1, 1, 0, 3]
  size_eq := rfl

theorem cat_split_truthRows :
    ∃ pieces : List Strided,
      Op.evaluate .split [.array truthRows] (sizedAttrs [.int 1, .int 0, .int 3] (-1)) =
        .ok (.list (pieces.map Value.array)) ∧
      pieces.length = 3 ∧
      List.Forall₂ (fun piece size ↦ piece.typeName = "bool" ∧
        piece.tensor.shape = [2, 4].set 1 size) pieces [1, 0, 3] ∧
      ∃ joined, Op.evaluate .cat (pieces.map Value.array) (joinAttrs (-1)) =
          .ok (.array joined) ∧ joined.tensor = truthRows ∧ joined.typeName = "bool" := by
  have haxis : 1 < (Strided.ofTensor truthRows).rank := by decide
  have hsizes : [1, 0, 3] ≠ ([] : List Nat) := by decide
  have halong : (sizedAttrs [.int 1, .int 0, .int 3] (-1)).find? "dim" = some (.int (-1)) := rfl
  have hjoined : (joinAttrs (-1)).find? "dim" = some (.int (-1)) := rfl
  obtain ⟨⟨pieces, hsplit, hcount, hpieces, joined, hcat, htensor, hname⟩, -⟩ :=
    cat_split (.ofTensor truthRows) (by decide) haxis (.inr rfl) hsizes rfl rfl halong hjoined []
  exact ⟨pieces, hsplit, hcount, hpieces, joined, hcat, htensor, hname.mpr rfl⟩

/-- Two integers with the highest byte of each first. -/
def highestFirstPair : Strided where
  tensor := ⟨.int32, [2], #[1, 2], rfl⟩
  strides := [1]
  highestFirst := true

/-- Split and joined, integers with the highest byte first have the lowest byte first. -/
theorem byte_order_not_restored :
    highestFirstPair.typeName = ">i4" ∧
      ∃ (pieces : List Strided) (joined : Strided),
        Op.evaluate .split [.array highestFirstPair] (sizedAttrs [.int 1, .int 1] 0) =
          .ok (.list (pieces.map Value.array)) ∧
        Op.evaluate .cat (pieces.map Value.array) (joinAttrs 0) = .ok (.array joined) ∧
        joined.tensor = highestFirstPair.tensor ∧ joined.typeName = "int32" := by
  have hfits : highestFirstPair.tensor.Fits := by decide
  have haxis : 0 < highestFirstPair.rank := by decide
  have hsizes : [1, 1] ≠ ([] : List Nat) := by decide
  have halong : (sizedAttrs [.int 1, .int 1] 0).find? "dim" = some (.int 0) := rfl
  have hjoined : (joinAttrs 0).find? "dim" = some (.int 0) := rfl
  obtain ⟨joined, hcat, htensor, hlowest⟩ :=
    Evaluation.evaluate_cat hfits haxis (.inl rfl) hsizes rfl hjoined
  have hname : joined.typeName = joined.tensor.elementType.name :=
    joined.typeName_eq_name_iff.mpr (by rw [Strided.isReversed, hlowest, Bool.false_and])
  rw [htensor] at hname
  exact ⟨by decide, highestFirstPair.pieces 0 [1, 1], joined,
    Evaluation.evaluate_split hfits haxis (.inl rfl) hsizes rfl rfl halong [], hcat, htensor, hname⟩

end Handover
