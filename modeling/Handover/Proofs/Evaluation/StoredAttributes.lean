import Handover.Evaluation.Run
import Handover.Proofs.Evaluation.Stored
import Handover.Proofs.Graph.Recording

/-!
# Evaluations with stored attributes

An operator whose attributes were stored gives the stored result on stored operands, unless it
reduces an operand along a tuple of axes (`Op.evaluate_stored`): the list that comes back for the
tuple is no choice of axes, and the operator fails (`Op.not_returns_of_reducesTuple`).
-/

set_option autoImplicit false
set_option relaxedAutoImplicit false

namespace Handover

open Result (Mirrors mirrors_error mirrors_pure)

/-! ### Attributes -/

/-- Whether a value has no scalar and no not-a-number but the plain one, records apart. -/
structure Attr.Steady (attr : Attr) : Prop where
  plain : attr.plain = attr
  nans : attr.hasPlainNaNs = true

/-- Whether every attribute is steady. -/
def Attrs.Steady (attrs : Attrs) : Prop := ∀ entry ∈ attrs.entries, entry.2.Steady

namespace Attr

variable {attr : Attr}

/-- Whether a value is a tuple. -/
def isTuple : Attr → Bool
  | tuple _ _ => true
  | _ => false

section Arguments

variable (hplain : attr.plain = attr)
include hplain

theorem unwrap_of_plain : attr.unwrap = attr := by
  cases attr with
  | scalar value => exact (plain_ne_scalar _ _ hplain).elim
  | null | bool | int | real | text | list | tuple | record => rfl

theorem whole?_stored : attr.stored.whole? = attr.whole? := by
  cases attr with
  | scalar value => exact (plain_ne_scalar _ _ hplain).elim
  | null | bool | int | real | text | list | tuple | record => rfl

theorem dimensionNumber?_stored : attr.stored.dimensionNumber? = attr.dimensionNumber? := by
  cases attr with
  | scalar value => exact (plain_ne_scalar _ _ hplain).elim
  | null | bool | int | real | text | list | tuple | record => rfl

theorem asKeeping_stored : attr.stored.asKeeping = attr.asKeeping := by
  cases attr with
  | scalar value => exact (plain_ne_scalar _ _ hplain).elim
  | null | bool | int | real | text | list | tuple | record => rfl

theorem asAxisNumber_stored : attr.stored.asAxisNumber = attr.asAxisNumber := by
  rw [asAxisNumber, asAxisNumber, whole?_stored hplain]

theorem asDimensionNumber_stored : attr.stored.asDimensionNumber = attr.asDimensionNumber := by
  rw [asDimensionNumber, asDimensionNumber, dimensionNumber?_stored hplain]

theorem asCutDimension_stored (rank : Nat) :
    attr.stored.asCutDimension rank = attr.asCutDimension rank := by
  rw [asCutDimension, asCutDimension, dimensionNumber?_stored hplain]

/-- Axes that are no tuple are chosen as before. -/
theorem asAxes_stored (htuple : attr.isTuple = false) (rank : Nat) :
    attr.stored.asAxes rank = attr.asAxes rank := by
  cases attr with
  | scalar value => exact (plain_ne_scalar _ _ hplain).elim
  | tuple items => cases htuple
  | null | bool | int | real | text | list | record => rfl

theorem asLength_stored : attr.stored.asLength = attr.asLength := by
  rw [asLength, asLength, whole?_stored hplain]

end Arguments

theorem itemLengths_storedItems {items : List Attr} (hplain : plainItems items = items) :
    itemLengths (storedItems items) = itemLengths items := by
  have hmapM : (storedItems items).mapM asLength = items.mapM asLength := by
    induction items with
    | nil => rfl
    | cons item rest ih =>
      obtain ⟨hitem, hrest⟩ := List.cons.inj hplain
      rw [storedItems, List.mapM_cons, List.mapM_cons, asLength_stored hitem, ih hrest]
  rw [itemLengths, itemLengths, hmapM, storedItems_eq_map, List.length_map]

theorem asLengths_stored (hplain : attr.plain = attr) : attr.stored.asLengths = attr.asLengths := by
  cases attr with
  | scalar value => exact (plain_ne_scalar _ _ hplain).elim
  | list items =>
    rw [stored, asLengths, asLengths, itemLengths_storedItems (list.inj hplain)]
  | tuple items =>
    rw [stored, asLengths, asLengths, itemLengths_storedItems (tuple.inj hplain).1]
  | null | bool | int | real | text | record => rfl

/-- A list is no choice of axes. -/
theorem not_returns_asAxes_of_isTuple (htuple : attr.isTuple = true) (rank : Nat) :
    ¬ (attr.stored.asAxes rank).Returns := by
  cases attr with
  | tuple items => exact nofun
  | null | bool | int | real | text | scalar | list | record => cases htuple

end Attr

namespace Attrs

variable {attrs : Attrs}

theorem find?_stored (attrs : Attrs) (name : String) :
    attrs.stored.find? name = (attrs.find? name).map Attr.stored := by
  rw [stored, Attr.storedFields_eq_map]
  exact OrderedMap.find?_mapValues Attr.stored attrs name

theorem get_stored (attrs : Attrs) (name : String) :
    (attrs.get name).Mirrors Attr.stored (attrs.stored.get name) := by
  unfold get
  rw [find?_stored]
  cases attrs.find? name with
  | none => exact mirrors_error _ _ _
  | some attr => exact mirrors_pure Attr.stored attr

theorem Steady.of_find? (hsteady : attrs.Steady) {name : String} {attr : Attr}
    (hattr : attrs.find? name = some attr) : attr.Steady :=
  hsteady _ (OrderedMap.mem_entries_of_find? hattr)

theorem find?_of_get {name : String} {attr : Attr} (hattr : attrs.get name = .ok attr) :
    attrs.find? name = some attr := by
  unfold get at hattr
  split at hattr
  · next value hvalue => exact hvalue.trans (congrArg some (Except.ok.inj hattr))
  · cases hattr

theorem Steady.of_get (hsteady : attrs.Steady) {name : String} {attr : Attr}
    (hattr : attrs.get name = .ok attr) : attr.Steady :=
  hsteady.of_find? (find?_of_get hattr)

end Attrs

/-! ### Operators -/

namespace Evaluation

open Value (operand operate operand_stored operate_stored mirrors_of_numeric)

variable {operands : List Value} {attrs : Attrs} {x : Value}

theorem scalarValue_stored {attr : Attr} (hattr : attr.Steady) :
    scalarValue attr.stored = (scalarValue attr).stored := by
  rw [scalarValue, scalarValue, Attr.unwrap_of_plain (Attr.plain_stored attr),
    Attr.unwrap_of_plain hattr.plain, Attr.ofAttr_stored hattr.plain hattr.nans]

theorem elementwise_stored (hattrs : attrs.Steady) (operation : BinaryOperation)
    (operands : List Value) :
    (elementwise operation operands attrs).Mirrors Value.stored
      (elementwise operation (operands.map Value.stored) attrs.stored) := by
  refine (operand_stored operands 0).bind fun a _ ↦ ?_
  rw [Attrs.find?_stored]
  cases hattr : attrs.find? "scalar" with
  | none => exact (operand_stored operands 1).bind fun b _ ↦ operate_stored operation a b
  | some attr =>
    dsimp only [Option.map_some]
    rw [scalarValue_stored (hattrs.of_find? hattr)]
    exact operate_stored operation a _

theorem power_stored (hattrs : attrs.Steady) (operands : List Value) :
    (power operands attrs).Mirrors Value.stored
      (power (operands.map Value.stored) attrs.stored) := by
  refine (operand_stored operands 0).bind fun a _ ↦
    (Attrs.get_stored attrs "scalar").bind fun attr hattr ↦ ?_
  rw [scalarValue_stored (hattrs.of_get hattr), Value.combine_stored]
  exact mirrors_of_numeric (Value.combine_numeric _ _ _)

theorem smoothRectifier_stored (x : Value) :
    (smoothRectifier x).Mirrors Value.stored (smoothRectifier x.stored) := by
  refine (operate_stored .multiply (fraction 5 1) x).bind fun halved _ ↦
    (operate_stored .power x (integer 3)).bind fun cube _ ↦
    (operate_stored .multiply (fraction 44715 6) cube).bind fun share _ ↦
    (operate_stored .add x share).bind fun bent _ ↦
    (operate_stored .multiply (fraction 7978845608 10) bent).bind fun scaled _ ↦ ?_
  rw [Value.mapReal_stored]
  refine Mirrors.bind_same fun tangent htangent ↦ ?_
  have htangent : tangent.stored = tangent :=
    Value.stored_of_isNumeric (Value.mapReal_numeric scaled _ tangent htangent)
  have hweight := operate_stored .add (integer 1) tangent
  rw [htangent] at hweight
  exact hweight.bind fun weight _ ↦ operate_stored .multiply halved weight

theorem reductionOperand_stored {axis : Attr} (haxis : axis.plain = axis)
    (htuple : axis.isTuple = false) (x : Value) (flaw : Flaw) :
    reductionOperand x.stored axis.stored flaw = reductionOperand x axis flaw := by
  simp only [reductionOperand, Value.gather_stored, Attr.asAxes_stored haxis htuple]

theorem reduction_stored (hattrs : attrs.Steady)
    (htuple : ∀ axis, attrs.find? "axis" = some axis → axis.isTuple = false)
    (operands : List Value) (flaw : Flaw) (reduce : Strided → List Nat → Bool → Result Strided) :
    (reduction operands attrs flaw reduce).Mirrors Value.stored
      (reduction (operands.map Value.stored) attrs.stored flaw reduce) := by
  have hkeep : ((attrs.stored.find? "keepdim").getD (.bool false)).asKeeping =
      ((attrs.find? "keepdim").getD (.bool false)).asKeeping := by
    rw [Attrs.find?_stored]
    cases hattr : attrs.find? "keepdim" with
    | none => rfl
    | some attr => exact Attr.asKeeping_stored (hattrs.of_find? hattr).plain
  refine (operand_stored operands 0).bind fun x _ ↦
    (Attrs.get_stored attrs "axis").bind fun axis haxis ↦ ?_
  rw [hkeep, reductionOperand_stored (hattrs.of_get haxis).plain
    (htuple axis (Attrs.find?_of_get haxis))]
  exact Mirrors.bind_same fun keep _ ↦ Mirrors.bind_same fun _ _ ↦
    mirrors_of_numeric (Value.ofComputed_numeric _)

theorem shares_stored (hattrs : attrs.Steady)
    (htuple : ∀ axis, attrs.find? "axis" = some axis → axis.isTuple = false)
    (operands : List Value) :
    (shares operands attrs).Mirrors Value.stored
      (shares (operands.map Value.stored) attrs.stored) := by
  refine (operand_stored operands 0).bind fun x _ ↦
    (Attrs.get_stored attrs "axis").bind fun axis haxis ↦ ?_
  rw [reductionOperand_stored (hattrs.of_get haxis).plain (htuple axis (Attrs.find?_of_get haxis))]
  exact Mirrors.bind_same fun _ _ ↦ mirrors_of_numeric (Value.ofComputed_numeric _)

theorem normalize_stored (x gamma beta epsilon : Value) :
    (normalize x gamma beta epsilon).Mirrors Value.stored
      (normalize x.stored gamma.stored beta.stored epsilon.stored) := by
  unfold normalize
  rw [Value.gather_stored, Value.gatherNumbers_stored]
  refine Mirrors.bind_same fun gathered _ ↦ Mirrors.bind_same fun axis _ ↦
    Mirrors.bind_same fun numbers _ ↦ Mirrors.bind_same fun mean _ ↦
    Mirrors.bind_same fun variance _ ↦
    (operate_stored .subtract x (.array mean)).bind fun centred _ ↦
    (operate_stored .add (.array variance) epsilon).bind fun spread _ ↦ ?_
  rw [Value.mapReal_stored]
  refine Mirrors.bind_same fun deviation hdeviation ↦ ?_
  have hdeviation : deviation.stored = deviation :=
    Value.stored_of_isNumeric (Value.mapReal_numeric spread _ deviation hdeviation)
  have hnormalized := operate_stored .divide centred deviation
  rw [hdeviation] at hnormalized
  exact hnormalized.bind fun normalized _ ↦
    (operate_stored .multiply normalized gamma).bind fun product _ ↦
    operate_stored .add product beta

theorem layerNormalization_stored (hattrs : attrs.Steady) (operands : List Value) :
    (layerNormalization operands attrs).Mirrors Value.stored
      (layerNormalization (operands.map Value.stored) attrs.stored) := by
  have hfloor : Value.ofAttr attrs.stored.normalizationFloor =
      (Value.ofAttr attrs.normalizationFloor).stored := by
    rw [Attrs.normalizationFloor, Attrs.normalizationFloor, Attrs.find?_stored]
    cases hattr : attrs.find? "eps" with
    | none => rfl
    | some attr =>
      obtain ⟨hplain, hnans⟩ := hattrs.of_find? hattr
      exact Attr.ofAttr_stored hplain hnans
  refine (operand_stored operands 0).bind fun x _ ↦ (operand_stored operands 1).bind fun gamma _ ↦
    (operand_stored operands 2).bind fun beta _ ↦ ?_
  rw [hfloor]
  exact normalize_stored x gamma beta _

theorem product_stored (a b : Value) : product a.stored b.stored = product a b := by
  simp only [product, Value.isArray_stored, Value.gather_stored]

theorem reversed_stored (value : Value) :
    (reversed value).Mirrors Value.stored (reversed value.stored) := by
  cases value with
  | array value => exact mirrors_pure Value.stored (.array value.reverseDimensions)
  | scalar value => exact mirrors_pure Value.stored (.scalar value)
  | list | tuple | plain => exact mirrors_error _ _ _

theorem affineProduct_stored (operands : List Value) :
    (affineProduct operands).Mirrors Value.stored
      (affineProduct (operands.map Value.stored)) := by
  have hadded : (operands.map Value.stored)[2]?.getD (integer 0) =
      (operands[2]?.getD (integer 0)).stored := by
    rw [List.getElem?_map]
    cases operands[2]? <;> rfl
  refine (operand_stored operands 0).bind fun x _ ↦ (operand_stored operands 1).bind fun weight _ ↦
    (reversed_stored weight).bind fun turned _ ↦ ?_
  rw [product_stored, hadded]
  refine (mirrors_of_numeric (product_numeric x turned)).bind fun projected _ ↦ ?_
  exact operate_stored .add projected _

theorem reshaped_stored (hattrs : attrs.Steady) (operands : List Value) :
    (reshaped operands attrs).Mirrors Value.stored
      (reshaped (operands.map Value.stored) attrs.stored) := by
  have hshape {α : Type} (next : Option (List Int) → Result α) :
      (do next (← (← attrs.get "shape").asLengths)).Mirrors id
        (do next (← (← attrs.stored.get "shape").asLengths)) := by
    refine (Attrs.get_stored attrs "shape").bind fun shape hattr ↦ ?_
    rw [Attr.asLengths_stored (hattrs.of_get hattr).plain]
    exact fun _ hvalue ↦ hvalue
  refine (operand_stored operands 0).bind fun x _ ↦ ?_
  cases x with
  | array x => exact (hshape _).bind fun result _ ↦ mirrors_pure Value.stored (.array result)
  | scalar x => exact (hshape _).bind fun result _ ↦ Value.mirrors_ofComputed result
  | list | tuple => exact mirrors_error _ _ _
  | plain attr => exact mirrors_error _ _ _

theorem exchanged_stored (hattrs : attrs.Steady) (operands : List Value) :
    (exchanged operands attrs).Mirrors Value.stored
      (exchanged (operands.map Value.stored) attrs.stored) := by
  refine (operand_stored operands 0).bind fun x _ ↦
    (Attrs.get_stored attrs "dim0").bind fun first hfirst ↦
    (Attrs.get_stored attrs "dim1").bind fun second hsecond ↦ ?_
  rw [Value.gather_stored, Attr.asDimensionNumber_stored (hattrs.of_get hfirst).plain,
    Attr.asDimensionNumber_stored (hattrs.of_get hsecond).plain]
  refine Mirrors.bind_same fun gathered _ ↦ Mirrors.bind_same fun _ _ ↦
    Mirrors.bind_same fun _ _ ↦ Mirrors.bind_same fun first _ ↦ Mirrors.bind_same fun second _ ↦ ?_
  cases gathered with
  | numbers x => exact mirrors_pure Value.stored (.array (x.exchangeDimensions first second))
  | texts | things => exact mirrors_error _ _ _

theorem runningValues_stored (total : Value) (values : List Value) :
    (runningValues total values).Mirrors (List.map Value.stored)
      (runningValues total.stored (values.map Value.stored)) := by
  induction values generalizing total with
  | nil => exact mirrors_pure (List.map Value.stored) [total]
  | cons value rest ih =>
    exact (operate_stored .add total value).bind fun next _ ↦ (ih next).bind fun totals _ ↦
      mirrors_pure (List.map Value.stored) (total :: totals)

theorem cutPoints_stored (sizes : Value) :
    (cutPoints sizes).Mirrors id (cutPoints sizes.stored) := by
  unfold cutPoints
  rw [Value.gather_stored, Value.leaves_stored]
  refine Mirrors.bind_same fun gathered _ ↦ ?_
  cases gathered with
  | numbers numbers => exact mirrors_pure id _
  | texts => exact mirrors_error _ _ _
  | things =>
    cases sizes.leaves with
    | nil => exact mirrors_pure id []
    | cons first rest =>
      refine (runningValues_stored first rest).bind fun totals _ ↦ ?_
      have hcounts : (totals.map Value.stored).dropLast.map Value.count? =
          totals.dropLast.map Value.count? := by
        rw [← List.map_dropLast, List.map_map]
        exact List.map_congr_left fun value _ ↦ Value.count?_stored value
      rw [hcounts]
      exact mirrors_pure id _

theorem itemCount_stored (value : Value) : itemCount value.stored = itemCount value := by
  cases value with
  | array | scalar => rfl
  | list items | tuple items =>
    rw [Value.stored, itemCount, itemCount, Value.storedItems_eq_map, List.length_map]
  | plain attr =>
    cases attr with
    | record fields =>
      rw [Value.stored, itemCount, itemCount, Attr.storedFields_eq_map, List.length_map]
    | null | bool | int | real | text | scalar | list | tuple => rfl

/-- The range of what is no array and no scalar. -/
theorem cutRange_of_not_numeric {x : Value} (hx : x.isNumeric = false) (dim : Attr) :
    cutRange x dim = (do
      let stop ← itemCount x
      let gathered ← x.gather
      let axis ← Attr.dimensionOf gathered.shape.length (← dim.asDimensionNumber)
      return (gathered, axis, stop)) := by
  cases x with
  | array | scalar => cases hx
  | list | tuple | plain => rfl

theorem cutRange_stored {dim : Attr} (hdim : dim.plain = dim) (x : Value) :
    cutRange x.stored dim.stored = cutRange x dim := by
  cases hx : x.isNumeric with
  | true =>
    rw [Value.stored_of_isNumeric hx]
    cases x with
    | array | scalar => simp only [cutRange, Attr.asCutDimension_stored hdim]
    | list | tuple | plain => cases hx
  | false =>
    rw [cutRange_of_not_numeric hx, cutRange_of_not_numeric ((Value.isNumeric_stored x).trans hx),
      itemCount_stored, Value.gather_stored, Attr.asDimensionNumber_stored hdim]

theorem piecesOf_stored (hattrs : attrs.Steady) (operands : List Value) :
    (piecesOf operands attrs).Mirrors (List.map Value.stored)
      (piecesOf (operands.map Value.stored) attrs.stored) := by
  refine (Attrs.get_stored attrs "sizes").bind fun sizes hsizes ↦ ?_
  obtain ⟨hplain, hnans⟩ := hattrs.of_get hsizes
  rw [Attr.ofAttr_stored hplain hnans]
  refine (cutPoints_stored (Value.ofAttr sizes)).bind fun points _ ↦
    (operand_stored operands 0).bind fun x _ ↦ (Attrs.get_stored attrs "dim").bind fun dim hdim ↦ ?_
  rw [cutRange_stored (hattrs.of_get hdim).plain]
  refine Mirrors.bind_same fun ⟨gathered, axis, stop⟩ _ ↦ ?_
  dsimp only [id]
  cases points.mapM id with
  | none => exact mirrors_error _ _ _
  | some points =>
    cases gathered with
    | numbers x =>
      have hpieces := mirrors_pure (List.map Value.stored) ((x.cut axis points stop).map .array)
      rwa [List.map_map] at hpieces
    | texts | things => exact mirrors_error _ _ _

theorem join_stored (hattrs : attrs.Steady) (operands : List Value) :
    (join operands attrs).Mirrors Value.stored
      (join (operands.map Value.stored) attrs.stored) := by
  have hparts : (operands.map Value.stored).mapM (fun value ↦ value.gatherNumbers .wrongKind) =
      operands.mapM fun value ↦ value.gatherNumbers .wrongKind := by
    induction operands with
    | nil => rfl
    | cons value rest ih =>
      rw [List.map_cons, List.mapM_cons, List.mapM_cons, Value.gatherNumbers_stored, ih]
  have hjoined (dim again : Attr) (hagain : again.asAxisNumber = dim.asAxisNumber) :
      Mirrors Value.stored
        (do
          let axis ← dim.asAxisNumber
          let parts ← operands.mapM fun value : Value ↦ value.gatherNumbers .wrongKind
          return Value.array (← Strided.concatenate parts axis))
        (do
          let axis ← again.asAxisNumber
          let parts ← (operands.map Value.stored).mapM fun value : Value ↦
            value.gatherNumbers .wrongKind
          return Value.array (← Strided.concatenate parts axis)) := by
    rw [hagain, hparts]
    exact Mirrors.bind_same fun _ _ ↦ Mirrors.bind_same fun _ _ ↦ Mirrors.bind_same fun joined _ ↦
      mirrors_pure Value.stored (.array joined)
  refine (Attrs.get_stored attrs "dim").bind fun dim hdim ↦ ?_
  have hplain := (hattrs.of_get hdim).plain
  have haxis := Attr.asAxisNumber_stored hplain
  cases dim with
  | null =>
    show Mirrors _ _ (_ >>= _)
    rw [hparts]
    exact Mirrors.bind_same fun _ _ ↦ Mirrors.bind_same fun joined _ ↦
      mirrors_pure Value.stored (.array joined)
  | scalar value => exact (Attr.plain_ne_scalar _ _ hplain).elim
  | bool | int | real | text | list | tuple | record => exact hjoined _ _ haxis

end Evaluation

/-! ### Reductions along tuples -/

/-- Whether an operator reduces its operand along axes. -/
def Op.reduces : Op → Bool
  | max | sum | softmax => true
  | _ => false

/-- Whether an operator with some attributes reduces its operand along a tuple of axes. -/
def Op.reducesTuple (op : Op) (attrs : Attrs) : Bool :=
  op.reduces && (attrs.find? "axis").any Attr.isTuple

open Evaluation in
/-- An operator gives the stored result on stored operands, unless it reduces along a tuple. -/
theorem Op.evaluate_stored {op : Op} {attrs : Attrs} (hattrs : attrs.Steady)
    (hreduces : op.reducesTuple attrs = false) (operands : List Value) :
    (op.evaluate operands attrs).Mirrors Value.stored
      (op.evaluate (operands.map Value.stored) attrs.stored) := by
  have htuple (hop : op.reduces = true) (axis : Attr) (haxis : attrs.find? "axis" = some axis) :
      axis.isTuple = false := by
    simpa [Op.reducesTuple, hop, haxis] using hreduces
  have hfirst := Value.operand_stored operands 0
  cases op with
  | add | sub | mul | div => exact elementwise_stored hattrs _ operands
  | relu =>
    refine hfirst.bind fun x _ ↦ ?_
    have hcombined : Value.combine .maximum x.stored (integer 0) =
        Value.combine .maximum x (integer 0) := Value.combine_stored .maximum x (integer 0)
    rw [hcombined]
    exact Value.mirrors_of_numeric (Value.combine_numeric _ _ _)
  | exp | tanh =>
    refine hfirst.bind fun x _ ↦ ?_
    rw [Value.mapReal_stored]
    exact Value.mirrors_of_numeric (Value.mapReal_numeric x _)
  | neg => exact hfirst.bind fun x _ ↦ Value.negate_stored x
  | pow => exact power_stored hattrs operands
  | gelu => exact hfirst.bind fun x _ ↦ smoothRectifier_stored x
  | max => exact reduction_stored hattrs (htuple rfl) operands .unsupportedOperands Strided.max
  | sum =>
    exact reduction_stored hattrs (htuple rfl) operands .wrongKind
      fun x axes keep ↦ .ok (x.sum axes keep)
  | softmax => exact shares_stored hattrs (htuple rfl) operands
  | matmul =>
    refine hfirst.bind fun a _ ↦ (Value.operand_stored operands 1).bind fun b _ ↦ ?_
    rw [product_stored]
    exact Value.mirrors_of_numeric (product_numeric a b)
  | linear => exact affineProduct_stored operands
  | reshape => exact reshaped_stored hattrs operands
  | transpose => exact exchanged_stored hattrs operands
  | split =>
    refine (piecesOf_stored hattrs operands).bind fun pieces _ ↦ ?_
    have hpieces := mirrors_pure Value.stored (.list pieces)
    rwa [Value.stored, Value.storedItems_eq_map] at hpieces
  | cat => exact join_stored hattrs operands
  | layernorm => exact layerNormalization_stored hattrs operands

open Evaluation in
/-- The list that a document gives back for a tuple is no choice of axes. -/
theorem Op.not_returns_of_reducesTuple {op : Op} {attrs : Attrs}
    (hreduces : op.reducesTuple attrs = true) (operands : List Value) :
    ¬ (op.evaluate operands attrs.stored).Returns := by
  obtain ⟨hop, htuple⟩ := Bool.and_eq_true_iff.mp hreduces
  obtain ⟨axis, haxis, htuple⟩ := (Option.any_eq_true ..).mp htuple
  have hget : attrs.stored.get "axis" = .ok axis.stored := by
    rw [Attrs.get, Attrs.find?_stored, haxis]
    rfl
  have hoperand (x : Value) (flaw : Flaw) : ¬ (reductionOperand x axis.stored flaw).Returns := by
    rintro ⟨value, hvalue⟩
    obtain ⟨gathered, -, hvalue⟩ := Result.bind_eq_ok_iff.mp hvalue
    obtain ⟨axes, haxes, -⟩ := Result.bind_eq_ok_iff.mp hvalue
    exact Attr.not_returns_asAxes_of_isTuple htuple _ ⟨axes, haxes⟩
  have hreduction (flaw : Flaw) (reduce : Strided → List Nat → Bool → Result Strided) :
      ¬ (reduction operands attrs.stored flaw reduce).Returns := by
    rintro ⟨value, hvalue⟩
    obtain ⟨x, -, hvalue⟩ := Result.bind_eq_ok_iff.mp hvalue
    rw [hget, Result.ok_bind] at hvalue
    obtain ⟨keep, -, hvalue⟩ := Result.bind_eq_ok_iff.mp hvalue
    obtain ⟨operand, hfound, -⟩ := Result.bind_eq_ok_iff.mp hvalue
    exact hoperand x flaw ⟨operand, hfound⟩
  cases op with
  | max => exact hreduction .unsupportedOperands Strided.max
  | sum => exact hreduction .wrongKind fun x axes keep ↦ .ok (x.sum axes keep)
  | softmax =>
    rintro ⟨value, hvalue⟩
    obtain ⟨x, -, hvalue⟩ := Result.bind_eq_ok_iff.mp hvalue
    rw [hget, Result.ok_bind] at hvalue
    obtain ⟨operand, hfound, -⟩ := Result.bind_eq_ok_iff.mp hvalue
    exact hoperand x _ ⟨operand, hfound⟩
  | _ => cases hop

end Handover
