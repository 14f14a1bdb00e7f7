import Handover.Element.Conversion

/-!
# Tensors

A tensor holds the elements of one type in a box of a given shape, row by row (`Tensor`). An index
lists one coordinate for each dimension; `Tensor.get` reads the element at an index, and
`Tensor.tabulate` builds the tensor whose element at each index is given by a function. The other
operations are said through these two.
-/

set_option autoImplicit false
set_option relaxedAutoImplicit false

namespace Handover

/-! ### Shapes and indices -/

namespace Shape

/-- The number of elements in a box. -/
def size : List Nat → Nat
  | [] => 1
  | length :: rest => length * size rest

/-- The place of an index among the elements of a box, row by row. -/
def place : List Nat → List Nat → Nat
  | _ :: shape, coordinate :: index => coordinate * size shape + place shape index
  | _, _ => 0

/-- The index at a place among the elements of a box. -/
def index : List Nat → Nat → List Nat
  | [], _ => []
  | _ :: shape, n => n / size shape :: index shape (n % size shape)

/-- Every index of a box, row by row. -/
def indices (shape : List Nat) : List (List Nat) := (List.range (size shape)).map (index shape)

/-- An index lies in a box when it has one coordinate below each length. -/
def Contains : List Nat → List Nat → Prop
  | [], [] => True
  | length :: shape, coordinate :: index => coordinate < length ∧ Contains shape index
  | _, _ => False

theorem place_lt_size {shape index : List Nat} (h : Contains shape index) :
    place shape index < size shape := by
  induction shape generalizing index with
  | nil => simp [place, size]
  | cons length shape ih =>
    cases index with
    | nil => exact absurd h (by simp [Contains])
    | cons coordinate rest =>
      obtain ⟨hcoordinate, hrest⟩ := h
      have hplace := ih hrest
      have hrow : (coordinate + 1) * size shape ≤ length * size shape :=
        Nat.mul_le_mul_right _ hcoordinate
      rw [Nat.add_mul, Nat.one_mul] at hrow
      simp only [place, size]
      omega

theorem index_place {shape box : List Nat} (h : Contains shape box) :
    index shape (place shape box) = box := by
  induction shape generalizing box with
  | nil =>
    cases box with
    | nil => rfl
    | cons coordinate rest => exact absurd h (by simp [Contains])
  | cons length shape ih =>
    cases box with
    | nil => exact absurd h (by simp [Contains])
    | cons coordinate rest =>
      obtain ⟨_, hrest⟩ := h
      have hplace := place_lt_size hrest
      have hpositive : 0 < size shape := by omega
      simp only [place, index]
      rw [Nat.mul_comm, Nat.mul_add_div hpositive, Nat.mul_add_mod, Nat.div_eq_of_lt hplace,
        Nat.mod_eq_of_lt hplace, Nat.add_zero, ih hrest]

theorem place_index {shape : List Nat} {n : Nat} (h : n < size shape) :
    place shape (index shape n) = n := by
  induction shape generalizing n with
  | nil =>
    simp only [size] at h
    simp only [place]
    omega
  | cons length shape ih =>
    have hpositive : 0 < size shape := by
      rcases Nat.eq_zero_or_pos (size shape) with hzero | hpositive
      · simp [size, hzero] at h
      · exact hpositive
    simp only [index, place, ih (Nat.mod_lt n hpositive)]
    exact Nat.div_add_mod' n (size shape)

theorem contains_index {shape : List Nat} {n : Nat} (h : n < size shape) :
    Contains shape (index shape n) := by
  induction shape generalizing n with
  | nil => trivial
  | cons length shape ih =>
    have hpositive : 0 < size shape := by
      rcases Nat.eq_zero_or_pos (size shape) with hzero | hpositive
      · simp [size, hzero] at h
      · exact hpositive
    exact ⟨(Nat.div_lt_iff_lt_mul hpositive).mpr h, ih (Nat.mod_lt n hpositive)⟩

end Shape

/-- Elements of one type in a box of a given shape, row by row. -/
structure Tensor where
  elementType : ElementType
  shape : List Nat
  elements : Array (Word elementType)
  size_eq : elements.size = Shape.size shape

namespace Tensor

/-- The tensor whose element at each index is given by a function. -/
def tabulate (t : ElementType) (shape : List Nat) (element : List Nat → Word t) : Tensor where
  elementType := t
  shape := shape
  elements := Array.ofFn fun place : Fin (Shape.size shape) ↦ element (Shape.index shape place)
  size_eq := Array.size_ofFn

/-- The tensor without dimensions that holds one element. -/
def single (t : ElementType) (word : Word t) : Tensor := tabulate t [] fun _ ↦ word

instance : Inhabited Tensor := ⟨single .bool 0⟩

/-- The tensor of a list of elements, if the list fills the shape. -/
def ofElements? (t : ElementType) (shape : List Nat) (elements : List (Word t)) : Option Tensor :=
  if h : elements.toArray.size = Shape.size shape then some ⟨t, shape, elements.toArray, h⟩
  else none

variable (tensor : Tensor)

/-- The element at an index. -/
def get (index : List Nat) : Word tensor.elementType :=
  tensor.elements.getD (Shape.place tensor.shape index) 0

/-- The number of dimensions. -/
def rank : Nat := tensor.shape.length

/-- The elements, row by row. -/
def toList : List (Word tensor.elementType) := tensor.elements.toList

/-- The tensor with every element changed by a function, perhaps to another type. -/
def map (t : ElementType) (change : Word tensor.elementType → Word t) : Tensor where
  elementType := t
  shape := tensor.shape
  elements := tensor.elements.map change
  size_eq := by rw [Array.size_map, tensor.size_eq]

/-- The tensor with every element brought to a type. -/
def convert (t : ElementType) : Tensor :=
  if tensor.elementType = t then tensor else tensor.map t (Word.convert t)

/-- The tensor with the same elements in another shape, if they fill it. -/
def withShape? (shape : List Nat) : Option Tensor :=
  if h : tensor.elements.size = Shape.size shape then
    some ⟨tensor.elementType, shape, tensor.elements, h⟩
  else none

/-- The bytes of the elements, row by row. -/
def toBytes : List UInt8 := tensor.toList.flatMap Word.toBytes

/-- The tensor in which every not-a-number is the positive quiet one with an empty payload. -/
def withPlainNaN : Tensor :=
  tensor.map tensor.elementType fun word ↦
    if word.toNumber = .nan then Word.ofNumber tensor.elementType .nan else word

/-! ### Reading a tensor -/

theorem get_tabulate {t : ElementType} {shape index : List Nat} (element : List Nat → Word t)
    (h : Shape.Contains shape index) : (tabulate t shape element).get index = element index := by
  simp [get, tabulate, Shape.place_lt_size h, Shape.index_place h]

/-- A tensor is determined by its shape and its elements at the indices of that shape. -/
theorem eq_tabulate : tensor = tabulate tensor.elementType tensor.shape tensor.get := by
  obtain ⟨t, shape, elements, hsize⟩ := tensor
  have helements : elements = (tabulate t shape (get ⟨t, shape, elements, hsize⟩)).elements := by
    apply Array.ext
    · simp [tabulate, hsize]
    · intro place hleft hright
      have hplace : place < Shape.size shape := by omega
      simp [tabulate, get, Shape.place_index hplace, hleft]
  simp only [tabulate, mk.injEq, heq_eq_eq, true_and]
  exact helements

end Tensor

end Handover
