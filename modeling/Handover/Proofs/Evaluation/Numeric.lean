import Handover.Evaluation.Run
import Handover.Proofs.Computation

/-!
# Numeric results

A value is numeric when it is an array or a scalar (`Value.isNumeric`). On numeric operands every
operator but splitting gives a numeric result (`Op.evaluate_numeric`), with one exception: a scalar
times a collection or a text repeats it, so the attribute `scalar` of a product must be neither
(`Attrs.multipliesNumbers`).
-/

set_option autoImplicit false
set_option relaxedAutoImplicit false

namespace Handover

open Result (Ensures ensures_pure)

namespace Value

/-- Whether a value is an array or a scalar. -/
def isNumeric (value : Value) : Bool := value.isArray || value.isScalar

@[simp] theorem isNumeric_array (value : Strided) : (array value).isNumeric = true := rfl

@[simp] theorem isNumeric_ofComputed (result : Strided) : (ofComputed result).isNumeric = true := by
  unfold ofComputed
  split_ifs <;> rfl

theorem isSequence_of_isNumeric {value : Value} (hvalue : value.isNumeric = true) :
    value.isSequence = false := by
  cases value with
  | array _ | scalar _ => rfl
  | list _ | tuple _ | plain _ => cases hvalue

end Value

/-- Whether a value is numeric if there is one. -/
abbrev Result.Numeric (result : Result Value) : Prop :=
  result.Ensures fun value ↦ value.isNumeric = true

theorem Result.fails_numeric (flaw : Flaw) : Result.Numeric (fails flaw) := by
  intro value hvalue
  cases hvalue

/-! ### Operations on values -/

namespace Value

variable {operation : BinaryOperation} {a b value : Value}

/-- A computed tensor is a numeric result, however it is computed. -/
theorem ofComputed_numeric (computed : Result Strided) :
    Result.Numeric (do return ofComputed (← computed)) :=
  Ensures.bind fun result _ ↦ ensures_pure (isNumeric_ofComputed result)

theorem combine_numeric (operation : BinaryOperation) (a b : Value) :
    (combine operation a b).Numeric := by
  unfold combine
  split
  · exact Ensures.bind fun _ _ ↦ ofComputed_numeric _
  · exact Ensures.bind fun _ _ ↦ ofComputed_numeric _
  · exact Ensures.bind fun _ _ ↦ Ensures.bind fun _ _ ↦ ofComputed_numeric _

/-- Assumes: one of the operands is numeric, and a product has no collection or text as operand. -/
theorem operate_numeric (hnumeric : a.isNumeric = true ∨ b.isNumeric = true)
    (hsequence : operation = .multiply → a.isSequence = false ∧ b.isSequence = false) :
    (operate operation a b).Numeric := by
  unfold operate
  split_ifs with harray hscalar
  · exact combine_numeric operation a b
  · unfold operateScalar
    split_ifs with hfirst hsecond
    · simp only [Bool.and_eq_true, decide_eq_true_eq] at hfirst
      rw [(hsequence hfirst.1).1] at hfirst
      cases hfirst.2
    · simp only [Bool.and_eq_true, decide_eq_true_eq] at hsecond
      rw [(hsequence hsecond.1).2] at hsecond
      cases hsecond.2
    · exact Result.fails_numeric _
    · exact combine_numeric operation a b
  · simp only [Bool.or_eq_true, not_or] at harray hscalar
    simp [isNumeric, harray, hscalar] at hnumeric

/-- An operation other than a product is numeric when one of its operands is. -/
theorem operate_numeric_of_ne (hoperation : operation ≠ .multiply)
    (hnumeric : a.isNumeric = true ∨ b.isNumeric = true) : (operate operation a b).Numeric :=
  operate_numeric hnumeric fun h ↦ absurd h hoperation

theorem multiply_numeric (ha : a.isNumeric = true) (hb : b.isNumeric = true) :
    (operate .multiply a b).Numeric :=
  operate_numeric (.inl ha) fun _ ↦ ⟨isSequence_of_isNumeric ha, isSequence_of_isNumeric hb⟩

theorem mapReal_numeric (value : Value) (function : (t : ElementType) → Word t → Word t) :
    (value.mapReal function).Numeric :=
  Ensures.bind fun _ _ ↦ ensures_pure (isNumeric_ofComputed _)

theorem negate_numeric (hvalue : value.isNumeric = true) : value.negate.Numeric := by
  cases value with
  | array value => exact ofComputed_numeric _
  | scalar value => exact ofComputed_numeric _
  | list _ | tuple _ | plain _ => cases hvalue

/-- The rows of an array are numeric. -/
theorem parts_numeric (hvalue : value.isNumeric = true) :
    value.parts.Ensures fun parts ↦ ∀ part ∈ parts, part.isNumeric = true := by
  cases value with
  | array value =>
    refine Ensures.bind fun rows _ ↦ ensures_pure ?_
    simp
  | scalar value =>
    intro parts hparts
    cases hparts
  | list _ | tuple _ | plain _ => cases hvalue

end Value

/-! ### Operators -/

/-- Whether the attribute `scalar`, if there is one, is no collection and no text, by which a scalar
would be repeated instead of multiplied. -/
def Attrs.multipliesNumbers (attrs : Attrs) : Bool :=
  ((attrs.find? "scalar").all fun attr ↦ !(Evaluation.scalarValue attr).isSequence)

namespace Evaluation

variable {operands : List Value} {attrs : Attrs} {x : Value}

theorem operand_numeric (hoperands : ∀ value ∈ operands, value.isNumeric = true) (slot : Nat) :
    (Value.operand operands slot).Numeric := by
  unfold Value.operand
  split
  · next value hvalue => exact ensures_pure (hoperands value (List.mem_of_getElem? hvalue))
  · exact Result.fails_numeric _

theorem elementwise_numeric (hoperands : ∀ value ∈ operands, value.isNumeric = true)
    {operation : BinaryOperation}
    (hscalar : operation = .multiply → attrs.multipliesNumbers = true) :
    (elementwise operation operands attrs).Numeric := by
  refine Ensures.bind fun a ha ↦ ?_
  have hnumeric := operand_numeric hoperands 0 a ha
  split
  · next attr hattr =>
    refine Value.operate_numeric (.inl hnumeric) fun hoperation ↦ ?_
    have hsequence := hscalar hoperation
    rw [Attrs.multipliesNumbers, hattr, Option.all_some, Bool.not_eq_true'] at hsequence
    exact ⟨Value.isSequence_of_isNumeric hnumeric, hsequence⟩
  · refine Ensures.bind fun b hb ↦ ?_
    exact Value.operate_numeric (.inl hnumeric) fun _ ↦
      ⟨Value.isSequence_of_isNumeric hnumeric,
        Value.isSequence_of_isNumeric (operand_numeric hoperands 1 b hb)⟩

theorem smoothRectifier_numeric (hx : x.isNumeric = true) : (smoothRectifier x).Numeric := by
  have htimes : ∀ (value : Value) (numerator places : Nat), value.isNumeric = true →
      (Value.operate .multiply (fraction numerator places) value).Numeric :=
    fun value _ _ hvalue ↦ Value.operate_numeric (.inr hvalue) fun _ ↦
      ⟨rfl, Value.isSequence_of_isNumeric hvalue⟩
  refine Ensures.bind fun halved hhalved ↦ Ensures.bind fun cube hcube ↦
    Ensures.bind fun share hshare ↦ Ensures.bind fun bent hbent ↦ Ensures.bind fun scaled _ ↦
    Ensures.bind fun tangent htangent ↦ Ensures.bind fun weight hweight ↦ ?_
  have hweight := Value.operate_numeric_of_ne (by decide)
    (.inr (Value.mapReal_numeric scaled _ tangent htangent)) weight hweight
  exact Value.multiply_numeric (htimes x 5 1 hx halved hhalved) hweight

theorem reduction_numeric (operands : List Value) (attrs : Attrs) (flaw : Flaw)
    (reduce : Strided → List Nat → Bool → Result Strided) :
    (reduction operands attrs flaw reduce).Numeric :=
  Ensures.bind fun _ _ ↦ Ensures.bind fun _ _ ↦ Ensures.bind fun _ _ ↦ Ensures.bind fun _ _ ↦
    Value.ofComputed_numeric _

theorem shares_numeric (operands : List Value) (attrs : Attrs) : (shares operands attrs).Numeric :=
  Ensures.bind fun _ _ ↦ Ensures.bind fun _ _ ↦ Ensures.bind fun _ _ ↦ Value.ofComputed_numeric _

theorem normalize_numeric {gamma : Value} (hgamma : gamma.isNumeric = true)
    (beta epsilon : Value) : (normalize x gamma beta epsilon).Numeric := by
  refine Ensures.bind fun _ _ ↦ Ensures.bind fun _ _ ↦ Ensures.bind fun _ _ ↦
    Ensures.bind fun mean _ ↦ Ensures.bind fun _ _ ↦ Ensures.bind fun centred hcentred ↦
    Ensures.bind fun _ _ ↦ Ensures.bind fun _ _ ↦ Ensures.bind fun normalized hnormalized ↦
    Ensures.bind fun product hproduct ↦ ?_
  have hcentred := Value.operate_numeric_of_ne (by decide)
    (.inr (Value.isNumeric_array mean)) centred hcentred
  have hnormalized := Value.operate_numeric_of_ne (by decide) (.inl hcentred) normalized hnormalized
  have hproduct := Value.multiply_numeric hnormalized hgamma product hproduct
  exact Value.operate_numeric_of_ne (by decide) (.inl hproduct)

theorem layerNormalization_numeric (hoperands : ∀ value ∈ operands, value.isNumeric = true) :
    (layerNormalization operands attrs).Numeric :=
  Ensures.bind fun _ _ ↦ Ensures.bind fun gamma hgamma ↦ Ensures.bind fun beta _ ↦
    normalize_numeric (operand_numeric hoperands 1 gamma hgamma) beta _

theorem product_numeric (a b : Value) : (product a b).Numeric := by
  unfold product
  split_ifs
  · exact Result.fails_numeric _
  refine Ensures.bind fun first _ ↦ Ensures.bind fun second _ ↦ ?_
  unfold gatheredProduct
  split
  · exact Ensures.bind fun _ _ ↦ ensures_pure (Value.isNumeric_ofComputed _)
  · exact Ensures.ite (Result.fails_numeric _) (Result.fails_numeric _)
  · exact Ensures.ite (Result.fails_numeric _) (Result.fails_numeric _)
  · exact Result.fails_numeric _

theorem affineProduct_numeric (operands : List Value) : (affineProduct operands).Numeric :=
  Ensures.bind fun _ _ ↦ Ensures.bind fun _ _ ↦ Ensures.bind fun _ _ ↦
    Ensures.bind fun projected hprojected ↦ Value.operate_numeric_of_ne (by decide)
      (.inl (product_numeric _ _ projected hprojected))

theorem reshaped_numeric (operands : List Value) (attrs : Attrs) :
    (reshaped operands attrs).Numeric := by
  refine Ensures.bind fun x _ ↦ ?_
  split
  · exact Ensures.bind fun result _ ↦ ensures_pure (Value.isNumeric_array result)
  · exact Value.ofComputed_numeric _
  · exact Result.fails_numeric _

theorem exchanged_numeric (operands : List Value) (attrs : Attrs) :
    (exchanged operands attrs).Numeric := by
  refine Ensures.bind fun _ _ ↦ Ensures.bind fun _ _ ↦ Ensures.bind fun _ _ ↦
    Ensures.bind fun _ _ ↦ Ensures.bind fun _ _ ↦ Ensures.bind fun _ _ ↦ Ensures.bind fun _ _ ↦
    Ensures.bind fun _ _ ↦ ?_
  split
  · exact ensures_pure (Value.isNumeric_array _)
  · exact Result.fails_numeric _
  · exact Result.fails_numeric _

theorem join_numeric (operands : List Value) (attrs : Attrs) : (join operands attrs).Numeric := by
  refine Ensures.bind fun dim _ ↦ ?_
  split
  · exact Ensures.bind fun _ _ ↦ Ensures.bind fun _ _ ↦ ensures_pure (Value.isNumeric_array _)
  · exact Ensures.bind fun _ _ ↦ Ensures.bind fun _ _ ↦ Ensures.bind fun _ _ ↦
      ensures_pure (Value.isNumeric_array _)

end Evaluation

open Evaluation in
/-- Every operator on arrays and scalars gives an array or a scalar, splitting apart. Assumes: a
product has no collection and no text as the attribute `scalar`. -/
theorem Op.evaluate_numeric {op : Op} {operands : List Value} {attrs : Attrs}
    (hop : op.yieldsTuple = false) (hscalar : op = .mul → attrs.multipliesNumbers = true)
    (hoperands : ∀ value ∈ operands, value.isNumeric = true) :
    (op.evaluate operands attrs).Numeric := by
  have hne {operation : BinaryOperation} (hoperation : operation ≠ .multiply) :
      operation = .multiply → attrs.multipliesNumbers = true := fun h ↦ absurd h hoperation
  cases op with
  | add | sub | div => exact elementwise_numeric hoperands (hne (by decide))
  | mul => exact elementwise_numeric hoperands fun _ ↦ hscalar rfl
  | relu => exact Ensures.bind fun _ _ ↦ Value.combine_numeric _ _ _
  | exp | tanh => exact Ensures.bind fun value _ ↦ Value.mapReal_numeric value _
  | neg =>
    exact Ensures.bind fun value hvalue ↦
      Value.negate_numeric (operand_numeric hoperands 0 value hvalue)
  | pow => exact Ensures.bind fun _ _ ↦ Ensures.bind fun _ _ ↦ Value.combine_numeric _ _ _
  | gelu =>
    exact Ensures.bind fun value hvalue ↦
      smoothRectifier_numeric (operand_numeric hoperands 0 value hvalue)
  | max => exact reduction_numeric operands attrs .unsupportedOperands Strided.max
  | sum => exact reduction_numeric operands attrs .wrongKind fun x axes keep ↦ .ok (x.sum axes keep)
  | softmax => exact shares_numeric operands attrs
  | matmul => exact Ensures.bind fun _ _ ↦ Ensures.bind fun _ _ ↦ product_numeric _ _
  | linear => exact affineProduct_numeric operands
  | reshape => exact reshaped_numeric operands attrs
  | transpose => exact exchanged_numeric operands attrs
  | split => cases hop
  | cat => exact join_numeric operands attrs
  | layernorm => exact layerNormalization_numeric hoperands

end Handover
