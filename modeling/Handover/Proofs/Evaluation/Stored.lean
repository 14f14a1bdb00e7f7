import Handover.Evaluation.Operators
import Handover.Proofs.Document.Values
import Handover.Proofs.Element
import Handover.Proofs.Evaluation.Numeric

/-!
# Operations on stored values

A value as it is where the attributes were stored (`Value.stored`): tuples are lists, and records
hold plain numbers only. Gathered into an array it is the same (`gather_stored`), so every operation
that has a result has the stored one on stored operands (`operate_stored`). The converse fails: two
lists can be joined, and a list and a tuple cannot.
-/

set_option autoImplicit false
set_option relaxedAutoImplicit false

namespace Handover

open Result (Ensures Mirrors ensures_error ensures_pure mirrors_error mirrors_pure)

namespace Value

/-! ### Stored values -/

mutual

/-- A value as it is where the attributes were stored. -/
def stored : Value → Value
  | list items => list (storedItems items)
  | tuple items => list (storedItems items)
  | plain (.record fields) => plain (.record (Attr.storedFields fields))
  | value => value

/-- Some values as they are where the attributes were stored. -/
def storedItems : List Value → List Value
  | [] => []
  | item :: rest => item.stored :: storedItems rest

end

theorem storedItems_eq_map (items : List Value) : storedItems items = items.map stored := by
  induction items with
  | nil => rfl
  | cons item rest ih => rw [storedItems, ih, List.map_cons]

theorem storedItems_append (first second : List Value) :
    storedItems (first ++ second) = storedItems first ++ storedItems second := by
  simp only [storedItems_eq_map, List.map_append]

section Kinds

variable (value : Value)

theorem stored_of_isNumeric {value : Value} (hvalue : value.isNumeric = true) :
    value.stored = value := by
  cases value with
  | array | scalar => rfl
  | list | tuple | plain => cases hvalue

@[simp] theorem stored_ofComputed (result : Strided) :
    (ofComputed result).stored = ofComputed result :=
  stored_of_isNumeric (isNumeric_ofComputed result)

@[simp] theorem isArray_stored : value.stored.isArray = value.isArray := by
  cases value with
  | plain attr => cases attr <;> rfl
  | _ => rfl

@[simp] theorem isScalar_stored : value.stored.isScalar = value.isScalar := by
  cases value with
  | plain attr => cases attr <;> rfl
  | _ => rfl

theorem isNumeric_stored : value.stored.isNumeric = value.isNumeric := by
  rw [isNumeric, isNumeric, isArray_stored, isScalar_stored]

@[simp] theorem isSequence_stored : value.stored.isSequence = value.isSequence := by
  cases value with
  | plain attr => cases attr <;> rfl
  | _ => rfl

@[simp] theorem isText_stored : value.stored.isText = value.isText := by
  cases value with
  | plain attr => cases attr <;> rfl
  | _ => rfl

@[simp] theorem count?_stored : value.stored.count? = value.count? := by
  cases value with
  | plain attr => cases attr <;> rfl
  | _ => rfl

@[simp] theorem untyped?_stored : value.stored.untyped? = value.untyped? := by
  cases value with
  | plain attr => cases attr <;> rfl
  | _ => rfl

end Kinds

/-! ### Gathering -/

section Gathering

mutual

theorem shape_stored (value : Value) : value.stored.shape = value.shape := by
  cases value with
  | array | scalar => rfl
  | list items | tuple items => rw [stored, shape, shape, itemShapes_storedItems items]
  | plain attr => cases attr <;> rfl

theorem itemShapes_storedItems (items : List Value) :
    itemShapes (storedItems items) = itemShapes items := by
  cases items with
  | nil => rfl
  | cons item rest =>
    rw [storedItems, itemShapes, itemShapes, shape_stored item, itemShapes_storedItems rest]

end

mutual

theorem leaves_stored (value : Value) : value.stored.leaves = value.leaves.map stored := by
  cases value with
  | array value => simp only [stored, leaves, List.map_map, Function.comp_def]
  | scalar => rfl
  | list items | tuple items => rw [stored, leaves, leaves, itemLeaves_storedItems items]
  | plain attr => cases attr <;> rfl

theorem itemLeaves_storedItems (items : List Value) :
    itemLeaves (storedItems items) = (itemLeaves items).map stored := by
  cases items with
  | nil => rfl
  | cons item rest =>
    rw [storedItems, itemLeaves, itemLeaves, leaves_stored item, itemLeaves_storedItems rest,
      List.map_append]

end

mutual

theorem ingredients_stored (value : Value) : value.stored.ingredients = value.ingredients := by
  cases value with
  | array | scalar => rfl
  | list items | tuple items =>
    rw [stored, ingredients, ingredients, itemIngredients_storedItems items]
  | plain attr => cases attr <;> rfl

theorem itemIngredients_storedItems (items : List Value) :
    itemIngredients (storedItems items) = itemIngredients items := by
  cases items with
  | nil => rfl
  | cons item rest =>
    rw [storedItems, itemIngredients, itemIngredients, ingredients_stored item,
      itemIngredients_storedItems rest]

end

theorem leafWord_stored (t : ElementType) (value : Value) :
    leafWord t value.stored = leafWord t value := by
  cases value with
  | plain attr => cases attr <;> rfl
  | _ => rfl

theorem gather_of_not_array {value : Value} (hvalue : value.isArray = false) :
    value.gather = (do
      let shape ← value.shape
      if Attr.dimensionLimit < shape.length then fails .shapeMismatch
      match value.ingredient with
      | .thing => return .things shape
      | .text => return .texts shape
      | .number t =>
        match Tensor.ofElements? t shape (value.leaves.map (leafWord t)) with
        | some tensor => return .numbers (.ofTensor tensor)
        | none => fails .shapeMismatch) := by
  cases value with
  | array => cases hvalue
  | scalar | list | tuple | plain => rfl

/-- A stored value is gathered into the same array, or fails in the same way. -/
@[simp] theorem gather_stored (value : Value) : value.stored.gather = value.gather := by
  cases harray : value.isArray with
  | true =>
    cases value with
    | array => rfl
    | scalar | list | tuple | plain => cases harray
  | false =>
    have hwords (t : ElementType) :
        value.stored.leaves.map (leafWord t) = value.leaves.map (leafWord t) := by
      rw [leaves_stored, List.map_map]
      exact List.map_congr_left fun leaf _ ↦ leafWord_stored t leaf
    have hingredient : value.stored.ingredient = value.ingredient := by
      rw [ingredient, ingredient, ingredients_stored]
    rw [gather_of_not_array harray, gather_of_not_array ((isArray_stored value).trans harray),
      shape_stored, hingredient]
    simp only [hwords]

@[simp] theorem gatherNumbers_stored (value : Value) (flaw : Flaw) :
    value.stored.gatherNumbers flaw = value.gatherNumbers flaw := by
  rw [gatherNumbers, gatherNumbers, gather_stored]

end Gathering

/-! ### Operations -/

section Operations

variable (operation : BinaryOperation) (a b value : Value)

/-- A numeric result is a stored one. -/
theorem mirrors_of_numeric {result : Result Value} (hnumeric : result.Numeric) :
    result.Mirrors stored result := by
  intro value hvalue
  rw [stored_of_isNumeric (hnumeric value hvalue), hvalue]

theorem mirrors_ofComputed (result : Strided) :
    Mirrors stored (pure (ofComputed result)) (pure (ofComputed result)) :=
  mirrors_of_numeric (ensures_pure (isNumeric_ofComputed result))

@[simp] theorem combine_stored : combine operation a.stored b.stored = combine operation a b := by
  simp only [combine, untyped?_stored, gather_stored]

theorem repeated_map {α β : Type} (change : α → β) (items : List α) (count : Int) :
    (repeated items count).Mirrors (List.map change) (repeated (items.map change) count) := by
  unfold repeated
  rw [List.isEmpty_map, List.length_map]
  split_ifs
  · exact mirrors_error _ _ _
  · exact mirrors_pure _ []
  · exact mirrors_error _ _ _
  · have hmap := mirrors_pure (List.map change) (List.replicate count.toNat items).flatten
    rwa [List.map_flatten, List.map_replicate] at hmap

theorem repeatBy_stored (value counter : Value) :
    (value.repeatBy counter).Mirrors stored (value.stored.repeatBy counter.stored) := by
  unfold repeatBy
  rw [count?_stored]
  cases counter.count? with
  | none => exact mirrors_error _ _ _
  | some count =>
    cases value with
    | array | scalar => exact mirrors_error _ _ _
    | list items =>
      rw [stored, storedItems_eq_map]
      refine (repeated_map stored items count).bind fun repeated _ ↦ ?_
      rw [← storedItems_eq_map]
      exact mirrors_pure stored (list repeated)
    | tuple items =>
      rw [stored, storedItems_eq_map]
      refine (repeated_map stored items count).bind fun repeated _ ↦ ?_
      rw [← storedItems_eq_map]
      exact mirrors_pure stored (tuple repeated)
    | plain attr =>
      cases attr with
      | text content => exact Mirrors.bind_same fun _ _ ↦ mirrors_pure stored (plain (.text _))
      | _ => exact mirrors_error _ _ _

/-- A product of values that are not both plain repeats one of them. -/
theorem operatePlain_multiply {a b : Value}
    (hplain : ∀ first second, a = plain first → b = plain second → False) :
    operatePlain .multiply a b = if a.isSequence then a.repeatBy b else b.repeatBy a := by
  unfold operatePlain
  split
  · contradiction
  · contradiction
  · contradiction
  · exact (hplain _ _ rfl rfl).elim
  · rfl
  · contradiction

theorem exists_plain_of_stored {value : Value} {attr : Attr} (hvalue : value.stored = plain attr) :
    ∃ other, value = plain other := by
  cases value with
  | plain other => exact ⟨other, rfl⟩
  | array | scalar | list | tuple => cases hvalue

/-- A record is no operand of an operation on plain values. -/
theorem operatePlain_record_left (fields : List (String × Attr)) (second : Attr) :
    operatePlain operation (plain (.record fields)) (plain second) = fails .wrongKind := by
  cases operation <;> cases second <;> rfl

theorem operatePlain_record_right (first : Attr) (fields : List (String × Attr)) :
    operatePlain operation (plain first) (plain (.record fields)) = fails .wrongKind := by
  cases operation <;> cases first <;> rfl

/-- The result of an operation on numbers is no record. -/
theorem calculate_ensures (first second : Attr) :
    (first.calculate operation second).Ensures fun result ↦
      (plain result).stored = plain result := by
  have hreal (a b : Word .float64) : (Attr.calculateReal operation a b).Ensures fun result ↦
      (plain result).stored = plain result := by
    unfold Attr.calculateReal
    split
    · exact Ensures.ite (ensures_pure rfl) (ensures_error _ _)
    · dsimp only
      split
      · exact ensures_error _ _
      · exact ensures_pure rfl
    · exact ensures_pure rfl
  have hexact (a b : Int) : (Attr.calculateExact operation a b).Ensures fun result ↦
      (plain result).stored = plain result := by
    unfold Attr.calculateExact
    split
    · exact ensures_pure rfl
    · exact ensures_pure rfl
    · exact ensures_pure rfl
    · exact Ensures.bind fun _ _ ↦ ensures_pure rfl
    · exact ensures_pure rfl
    · refine Ensures.ite (ensures_pure rfl) (Ensures.bind fun a _ ↦ Ensures.bind fun b _ ↦ ?_)
      exact hreal a b
  unfold Attr.calculate
  split
  · exact hexact _ _
  · exact Ensures.ite (Ensures.bind fun a _ ↦ Ensures.bind fun b _ ↦ hreal a b) (ensures_error _ _)

/-- The result of an operation on plain values is no record. -/
theorem operatePlain_plain (first second : Attr) :
    (operatePlain operation (plain first) (plain second)).Ensures fun value ↦
      value.stored = value := by
  have hrepeated (value counter : Attr) :
      ((plain value).repeatBy (plain counter)).Ensures fun value ↦ value.stored = value := by
    unfold repeatBy
    split
    · exact ensures_error _ _
    · cases value with
      | text content => exact Ensures.bind fun _ _ ↦ ensures_pure rfl
      | _ => exact ensures_error _ _
  unfold operatePlain
  split
  · contradiction
  · contradiction
  · exact ensures_pure rfl
  · next hfirst hsecond =>
    obtain rfl := plain.inj hfirst
    obtain rfl := plain.inj hsecond
    exact Ensures.ite (hrepeated _ _) (Ensures.ite (hrepeated _ _)
      (Ensures.bind fun result hresult ↦ ensures_pure (calculate_ensures _ _ _ result hresult)))
  · next hplain => exact (hplain _ _ rfl rfl).elim
  · exact ensures_error _ _

theorem stored_plain (attr : Attr) :
    (plain attr).stored = plain attr ∨ ∃ fields, attr = .record fields := by
  cases attr with
  | record fields => exact .inr ⟨fields, rfl⟩
  | _ => exact .inl rfl

theorem operatePlain_plain_stored (first second : Attr) :
    (operatePlain operation (plain first) (plain second)).Mirrors stored
      (operatePlain operation (plain first).stored (plain second).stored) := by
  rcases stored_plain first with hfirst | ⟨fields, rfl⟩
  · rcases stored_plain second with hsecond | ⟨fields, rfl⟩
    · intro value hvalue
      rw [hfirst, hsecond, operatePlain_plain operation first second value hvalue, hvalue]
    · rw [operatePlain_record_right]
      exact mirrors_error _ _ _
  · rw [operatePlain_record_left]
    exact mirrors_error _ _ _

theorem operatePlain_multiply_stored {a b : Value}
    (hplain : ∀ first second, a = plain first → b = plain second → False) :
    (operatePlain .multiply a b).Mirrors stored (operatePlain .multiply a.stored b.stored) := by
  have hstored (first second : Attr) (ha : a.stored = plain first) (hb : b.stored = plain second) :
      False := by
    obtain ⟨_, ha⟩ := exists_plain_of_stored ha
    obtain ⟨_, hb⟩ := exists_plain_of_stored hb
    exact hplain _ _ ha hb
  rw [operatePlain_multiply hplain, operatePlain_multiply hstored, isSequence_stored]
  split_ifs
  · exact repeatBy_stored a b
  · exact repeatBy_stored b a

theorem operatePlain_stored :
    (operatePlain operation a b).Mirrors stored (operatePlain operation a.stored b.stored) := by
  by_cases hplain : ∃ first second, a = plain first ∧ b = plain second
  · obtain ⟨first, second, rfl, rfl⟩ := hplain
    exact operatePlain_plain_stored operation first second
  have hplain (first second : Attr) (ha : a = plain first) (hb : b = plain second) : False :=
    hplain ⟨first, second, ha, hb⟩
  by_cases hmultiply : operation = .multiply
  · subst hmultiply
    exact operatePlain_multiply_stored hplain
  -- Only sums of two lists and of two tuples are left, the other operations fail.
  fun_cases operatePlain operation a b with
  | case1 first second =>
    have hjoined := mirrors_pure stored (list (first ++ second))
    rw [stored, storedItems_append] at hjoined
    exact hjoined
  | case2 first second =>
    have hjoined := mirrors_pure stored (tuple (first ++ second))
    rw [stored, storedItems_append] at hjoined
    exact hjoined
  | case3 | case4 | case5 | case6 => exact (hplain _ _ rfl rfl).elim
  | case7 | case8 => contradiction
  | case9 => exact mirrors_error _ _ _

theorem operateScalar_stored :
    (operateScalar operation a b).Mirrors stored (operateScalar operation a.stored b.stored) := by
  unfold operateScalar
  simp only [isSequence_stored, isText_stored]
  split_ifs
  · exact repeatBy_stored a b
  · exact repeatBy_stored b a
  · exact mirrors_error _ _ _
  · rw [combine_stored]
    exact mirrors_of_numeric (combine_numeric operation a b)

/-- An operation that has a result has the stored one on stored operands. -/
theorem operate_stored :
    (operate operation a b).Mirrors stored (operate operation a.stored b.stored) := by
  unfold operate
  simp only [isArray_stored, isScalar_stored]
  split_ifs
  · rw [combine_stored]
    exact mirrors_of_numeric (combine_numeric operation a b)
  · exact operateScalar_stored operation a b
  · exact operatePlain_stored operation a b

theorem negate_stored : value.negate.Mirrors stored value.stored.negate := by
  cases value with
  | array | scalar => exact mirrors_of_numeric (negate_numeric rfl)
  | list | tuple => exact mirrors_error _ _ _
  | plain attr =>
    cases attr with
    | bool value => exact mirrors_pure stored (plain (.int _))
    | int value => exact mirrors_pure stored (plain (.int _))
    | real value => exact mirrors_pure stored (plain (.real _))
    | null | text | scalar | list | tuple | record => exact mirrors_error _ _ _

@[simp] theorem mapReal_stored (function : (t : ElementType) → Word t → Word t) :
    value.stored.mapReal function = value.mapReal function := by
  rw [mapReal, mapReal, gatherNumbers_stored]

/-- The parts of a stored value. -/
theorem parts_stored : value.parts.Mirrors (List.map stored) value.stored.parts := by
  cases value with
  | array value =>
    refine Mirrors.bind_same fun rows _ ↦ ?_
    have hrows := mirrors_pure (List.map stored) (rows.map ofComputed)
    simpa only [List.map_map, Function.comp_def, stored_ofComputed] using hrows
  | scalar => exact mirrors_error _ _ _
  | list items | tuple items =>
    rw [stored, storedItems_eq_map]
    exact mirrors_pure (List.map stored) items
  | plain attr =>
    cases attr with
    | text content =>
      have hparts := mirrors_pure (List.map stored)
        (content.toList.map fun c ↦ plain (.text (String.ofList [c])))
      rwa [List.map_map] at hparts
    | record fields =>
      rw [stored, Attr.storedFields_eq_map]
      have hparts := mirrors_pure (List.map stored) (fields.map fun field ↦ plain (.text field.1))
      rw [List.map_map] at hparts
      simp only [parts, List.map_map]
      exact hparts
    | null | bool | int | real | scalar | list | tuple => exact mirrors_error _ _ _

theorem operand_stored (operands : List Value) (slot : Nat) :
    (operand operands slot).Mirrors stored (operand (operands.map stored) slot) := by
  unfold operand
  rw [List.getElem?_map]
  cases operands[slot]? with
  | none => exact mirrors_error _ _ _
  | some value => exact mirrors_pure stored value

end Operations

end Value

/-! ### Attributes as values -/

namespace Attr

mutual

/-- Whether every not-a-number outside records is the plain one. -/
def hasPlainNaNs : Attr → Bool
  | real value => value.toNumber != .nan || value == Word.ofNumber .float64 .nan
  | list items | tuple items _ => havePlainNaNs items
  | _ => true

/-- Whether every not-a-number in some items is the plain one. -/
def havePlainNaNs : List Attr → Bool
  | [] => true
  | item :: rest => item.hasPlainNaNs && havePlainNaNs rest

end

theorem plain_ne_scalar (attr : Attr) (value : Scalar) : attr.plain ≠ .scalar value := by
  intro heq
  cases attr with
  | scalar other =>
    rw [plain, Scalar.plain] at heq
    split at heq <;> cases heq
  | null | bool | int | real | text | list | tuple | record => cases heq

mutual

theorem ofAttr_stored {attr : Attr} (hplain : attr.plain = attr)
    (hnans : attr.hasPlainNaNs = true) :
    Value.ofAttr attr.stored = (Value.ofAttr attr).stored := by
  cases attr with
  | null | bool | int | text | record => rfl
  | real value =>
    have hword : Word.ofNumber .float64 value.toNumber = value := by
      simp only [hasPlainNaNs, Bool.or_eq_true, bne_iff_ne, beq_iff_eq] at hnans
      by_cases hnan : value.toNumber = .nan
      · rw [hnan, hnans.resolve_left (not_not_intro hnan)]
      · exact Word.ofNumber_toNumber hnan
    simp only [stored, withPlainNaN, hword, Value.ofAttr, Value.stored]
  | scalar value => exact (plain_ne_scalar _ _ hplain).elim
  | list items =>
    rw [stored, Value.ofAttr, Value.ofAttr, Value.stored,
      ofAttrs_storedItems (list.inj hplain) hnans]
  | tuple items =>
    rw [stored, Value.ofAttr, Value.ofAttr, Value.stored,
      ofAttrs_storedItems (tuple.inj hplain).1 hnans]

theorem ofAttrs_storedItems {items : List Attr} (hplain : plainItems items = items)
    (hnans : havePlainNaNs items = true) :
    Value.ofAttrs (storedItems items) = Value.storedItems (Value.ofAttrs items) := by
  cases items with
  | nil => rfl
  | cons item rest =>
    obtain ⟨hitem, hrest⟩ := List.cons.inj hplain
    simp only [havePlainNaNs, Bool.and_eq_true] at hnans
    rw [storedItems, Value.ofAttrs, Value.ofAttrs, Value.storedItems,
      ofAttr_stored hitem hnans.1, ofAttrs_storedItems hrest hnans.2]

end

end Attr

end Handover
