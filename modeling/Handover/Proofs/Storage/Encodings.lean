import Handover.Proofs.Computation
import Handover.Proofs.Element
import Handover.Storage.Weights

/-!
# Encodings of weights

A weight is written in its own encoding or in a floating-point one (`storageEncoding_eq_ok`), and
each of its elements takes the bytes of one number (`Encoding.length_encode`). The manifest keeps
the name of the encoding, which does not say which byte comes first (`Encoding.named_name_eq`), so
the bytes are always read from the lowest on. What is read back is the tensor brought to the type it
is stored in and back (`Encoding.restored`), with the bytes of each element turned round in between
if the highest came first (`Encoding.exists_words`).
-/

set_option autoImplicit false
set_option relaxedAutoImplicit false

namespace Handover

/-- An element whose bytes are those of another in the opposite order. -/
def Word.swapped {t : ElementType} (word : Word t) : Word t :=
  Word.ofBits t (Word.ofLittleEndian word.toBytes.reverse)

/-- The tensor with the bytes of each element in the opposite order. -/
def Tensor.swapped (tensor : Tensor) : Tensor := tensor.map tensor.elementType Word.swapped

namespace Tensor

variable (tensor : Tensor)

theorem map_map {s t : ElementType} (first : Word tensor.elementType → Word s)
    (second : Word s → Word t) :
    (tensor.map s first).map t second = tensor.map t fun word ↦ second (first word) := by
  simp [map, Function.comp_def]

theorem map_id : (tensor.map tensor.elementType fun word ↦ word) = tensor := by
  simp [map]

theorem convert_self : tensor.convert tensor.elementType = tensor := if_pos rfl

theorem convert_of_ne {t : ElementType} (hother : tensor.elementType ≠ t) :
    tensor.convert t = tensor.map t (Word.convert t) := if_neg hother

theorem ofElements?_map {t : ElementType} (change : Word tensor.elementType → Word t) :
    Tensor.ofElements? t tensor.shape (tensor.toList.map change) = some (tensor.map t change) := by
  obtain ⟨_, _, ⟨elements⟩, hsize⟩ := tensor
  simp [ofElements?, toList, map, ← hsize]

end Tensor

namespace Encoding

/-! ### Kinds of numbers -/

/-- Whether each element of an encoding is one number. -/
def isNumber (encoding : Encoding) : Bool :=
  match encoding.kind with
  | .element _ | .extended => true
  | _ => false

variable {encoding : Encoding}

theorem isNumber_iff : encoding.isNumber = true ↔
    (∃ t, encoding.kind = .element t) ∨ encoding.kind = .extended := by
  unfold isNumber
  cases encoding.kind <;> simp

theorem isNumber_of_isReal (hreal : encoding.isReal = true) : encoding.isNumber = true := by
  unfold isReal at hreal
  unfold isNumber
  cases hkind : encoding.kind <;> simp_all

theorem named_name (t : ElementType) : named t.name = .ok (.ofElementType t) := by
  cases t <;> rfl

theorem byteCount_pos (t : ElementType) : 0 < t.byteCount := by
  cases t <;> decide

theorem name_of_kind {t : ElementType} (hkind : encoding.kind = .element t) :
    encoding.name = t.name := by
  rw [name, hkind]

/-- The encoding that the name of an encoding of numbers gives: the lowest byte comes first. -/
theorem named_name_eq (hnumber : encoding.isNumber = true) :
    named encoding.name = .ok { kind := encoding.kind } := by
  rcases isNumber_iff.mp hnumber with ⟨t, hkind⟩ | hkind
  · rw [name_of_kind hkind, hkind]
    exact named_name t
  · rw [name, hkind]
    rfl

theorem byteCount_kind (hnumber : encoding.isNumber = true) :
    encoding.kind.byteCount = encoding.kind.unitSize := by
  rcases isNumber_iff.mp hnumber with ⟨t, hkind⟩ | hkind
  · rw [hkind]
    exact Nat.one_mul _
  · rw [hkind]
    rfl

theorem byteCount_kind_pos (hnumber : encoding.isNumber = true) : 0 < encoding.kind.byteCount := by
  rw [byteCount_kind hnumber]
  rcases isNumber_iff.mp hnumber with ⟨t, hkind⟩ | hkind
  · rw [hkind]
    exact byteCount_pos t
  · rw [hkind]
    decide

/-- The encodings of weights are those of numbers; the widest one is for floating-point weights. -/
theorem storageEncoding_eq_ok {own : Encoding} {storage : Option String}
    (hencoding : storageEncoding own storage = .ok encoding) :
    encoding = own ∨ own.isReal = true ∧ encoding.isReal = true ∧ ∃ name, storage = some name := by
  unfold storageEncoding at hencoding
  split at hencoding
  · exact .inl (Except.ok.inj hencoding).symm
  · rename_i name
    split_ifs at hencoding with hown
    · exact .inl (Except.ok.inj hencoding).symm
    · obtain ⟨stored, -, hstored⟩ := Result.bind_eq_ok_iff.mp hencoding
      split_ifs at hstored with hreal
      · obtain rfl := Except.ok.inj hstored
        exact .inr ⟨by simpa using hown, hreal, name, rfl⟩
      · cases hstored

/-- Elements are stored as they stand in memory without a storage type, and where they are no
floating-point numbers. -/
theorem storageEncoding_own {own : Encoding} {storage : Option String}
    (hown : storage = none ∨ own.isReal = false) : storageEncoding own storage = .ok own := by
  cases storage with
  | none => rfl
  | some name => exact if_pos (by rw [hown.resolve_left (nofun : ¬ some name = none)]; rfl)

theorem isNumber_of_storageEncoding {data : Strided} {storage : Option String}
    (hencoding : storageEncoding data.encoding storage = .ok encoding) :
    encoding.isNumber = true := by
  rcases storageEncoding_eq_ok hencoding with rfl | ⟨-, hreal, -⟩
  · rfl
  · exact isNumber_of_isReal hreal

/-- The name of the element type of data gives its own encoding. -/
theorem named_typeName (data : Strided) : named data.typeName = .ok data.encoding := by
  unfold Strided.typeName Strided.encoding
  cases data.isReversed <;> cases data.tensor.elementType <;> rfl

/-! ### Numbers of 80 bits -/

section Extended

/-- A mantissa that is shifted to its leading digit has 64 of them. -/
theorem shifted_lt {mantissa : Nat} (hzero : mantissa ≠ 0) (hmantissa : mantissa < 2 ^ 64) :
    mantissa * 2 ^ (63 - Nat.log2 mantissa) < 2 ^ 64 := by
  have hlog : Nat.log2 mantissa < 64 := (Nat.log2_lt hzero).mpr hmantissa
  calc mantissa * 2 ^ (63 - Nat.log2 mantissa)
      < 2 ^ (Nat.log2 mantissa + 1) * 2 ^ (63 - Nat.log2 mantissa) :=
        Nat.mul_lt_mul_of_pos_right Nat.lt_log2_self (by positivity)
    _ = 2 ^ 64 := by rw [← Nat.pow_add]; congr 1; omega

/-- The number of the widest type has 80 bits, if its exponent is in range. -/
theorem extendedWord_lt {number : BinaryNumber}
    (hrange : ∀ negative mantissa exponent, number = .finite negative mantissa exponent →
      mantissa < 2 ^ 64 ∧ exponent ≤ 1024) : extendedWord number < 2 ^ 80 := by
  have hsign (negative : Bool) (word : Nat) (hword : word < 2 ^ 79) :
      (if negative = true then Nat.pow 2 79 + word else word) < 2 ^ 80 := by
    have hpower : Nat.pow 2 79 = 2 ^ 79 := rfl
    split_ifs <;> omega
  cases number with
  | nan => decide
  | infinite negative => exact hsign negative _ (by decide)
  | finite negative mantissa exponent =>
    obtain ⟨hmantissa, hexponent⟩ := hrange negative mantissa exponent rfl
    unfold extendedWord
    dsimp only
    by_cases hzero : mantissa = 0
    · rw [if_pos hzero]
      exact hsign negative 0 (by decide)
    · rw [if_neg hzero]
      refine hsign negative _ ?_
      have hsignificand := shifted_lt hzero hmantissa
      have hfield : (exponent - ((63 - Nat.log2 mantissa : Nat) : Int) + 16383 + 63).toNat <
          2 ^ 15 - 1 := by omega
      show _ * 2 ^ 64 + mantissa * 2 ^ _ < _
      omega

theorem decode_range {format : BinaryFormat} (hfraction : format.fractionWidth ≤ 62)
    (hexponent : format.minExponent + Int.pow 2 format.exponentWidth ≤ 1024) {word : Nat}
    {negative : Bool} {mantissa : Nat} {exponent : Int}
    (hdecode : format.decode word = .finite negative mantissa exponent) :
    mantissa < 2 ^ 64 ∧ exponent ≤ 1024 := by
  have hfield : word % format.signWord / Nat.pow 2 format.fractionWidth <
      Nat.pow 2 format.exponentWidth := by
    have hsign : format.signWord = 2 ^ format.fractionWidth * 2 ^ format.exponentWidth := by
      rw [← Nat.pow_add, Nat.add_comm]
      rfl
    exact Nat.div_lt_of_lt_mul (hsign ▸ Nat.mod_lt word (hsign ▸ by positivity))
  have hpart : word % format.signWord % Nat.pow 2 format.fractionWidth <
      Nat.pow 2 format.fractionWidth := Nat.mod_lt _ (Nat.two_pow_pos _)
  have hlimit : Nat.pow 2 format.fractionWidth ≤ 2 ^ 62 :=
    Nat.pow_le_pow_right (by decide) hfraction
  have hcast : Int.pow 2 format.exponentWidth = (Nat.pow 2 format.exponentWidth : Nat) :=
    (Int.natCast_pow 2 _).symm
  rw [hcast] at hexponent
  unfold BinaryFormat.decode at hdecode
  dsimp only at hdecode
  split_ifs at hdecode
  · obtain ⟨-, rfl, rfl⟩ := BinaryNumber.finite.inj hdecode
    omega
  · obtain ⟨-, rfl, rfl⟩ := BinaryNumber.finite.inj hdecode
    omega

theorem extendedWord_toNumber_lt {t : ElementType} (hreal : t.isReal = true) (word : Word t) :
    extendedWord word.toNumber < 2 ^ 80 := by
  refine extendedWord_lt fun negative mantissa exponent hfinite ↦ ?_
  unfold Word.toNumber at hfinite
  cases t with
  | float16 => exact decode_range (by decide) (by decide) hfinite
  | float32 => exact decode_range (by decide) (by decide) hfinite
  | float64 => exact decode_range (by decide) (by decide) hfinite
  | _ => cases hreal

/-- The number of 80 bits whose sixteen bytes are those of another in the opposite order. -/
def swappedExtended (word : Nat) : Nat :=
  Word.ofLittleEndian (Word.littleEndian 16 word).reverse

end Extended

/-! ### Elements -/

section Elements

variable {t : ElementType}

theorem length_encode (hnumber : encoding.isNumber = true) (word : Word t) :
    (encoding.encode word).length = encoding.kind.byteCount := by
  have hbytes : (encoding.encode word).length = encoding.kind.unitSize := by
    unfold encode
    rcases isNumber_iff.mp hnumber with ⟨stored, hkind⟩ | hkind
    · rw [hkind]
      dsimp only
      by_cases hsame : stored = t
      · subst hsame
        split_ifs <;> simp [StoredKind.unitSize]
      · rw [if_neg hsame]
        split_ifs <;> simp [StoredKind.unitSize]
    · rw [hkind]
      dsimp only
      split_ifs <;> simp [StoredKind.unitSize]
  rw [hbytes, byteCount_kind hnumber]

/-- The bytes of one number are read as a whole. -/
theorem units_of_length (hnumber : encoding.isNumber = true) {bytes : List UInt8}
    (hlength : bytes.length = encoding.kind.byteCount) :
    units { kind := encoding.kind } bytes = [bytes] := by
  have hcount : encoding.kind.unitCount = 1 := by
    rcases isNumber_iff.mp hnumber with ⟨stored, hkind⟩ | hkind <;> rw [hkind] <;> rfl
  rw [byteCount_kind hnumber] at hlength
  unfold units
  simp only [hcount, Bool.false_eq_true, if_false, parts, ← hlength, List.take_length]

/-- An element that is stored in its own type is read as it is, or with its bytes turned round. -/
theorem decode_encode_same (hkind : encoding.kind = .element t) (word : Word t) :
    decode { kind := encoding.kind } t (encoding.encode word) =
      .ok (if encoding.highestFirst then word.swapped else word) := by
  have hnumber : encoding.isNumber = true := isNumber_iff.mpr (.inl ⟨t, hkind⟩)
  unfold decode
  rw [units_of_length hnumber (length_encode hnumber word)]
  unfold encode
  simp only [hkind, if_true, List.getD_cons_zero, wordOf]
  cases encoding.highestFirst with
  | false => simp [Word.ofBits_toBytes]
  | true => simp [Word.swapped]

/-- An element that is stored in another type is brought to that type and back. -/
theorem decode_encode_other {stored : ElementType} (hkind : encoding.kind = .element stored)
    (hother : stored ≠ t) (word : Word t) :
    decode { kind := encoding.kind } t (encoding.encode word) =
      .ok ((if encoding.highestFirst then (word.convert stored).swapped
        else word.convert stored).convert t) := by
  have hnumber : encoding.isNumber = true := isNumber_iff.mpr (.inl ⟨stored, hkind⟩)
  unfold decode
  rw [units_of_length hnumber (length_encode hnumber word)]
  unfold encode
  simp only [hkind, if_neg hother, List.getD_cons_zero, wordOf]
  cases encoding.highestFirst with
  | false => simp [Word.ofBits_toBytes]
  | true => simp [Word.swapped]

theorem decode_encode_extended (hkind : encoding.kind = .extended) (hreal : t.isReal = true)
    (word : Word t) :
    decode { kind := encoding.kind } t (encoding.encode word) =
      .ok (numberAs t (extendedNumber (if encoding.highestFirst then
        swappedExtended (extendedWord word.toNumber) else extendedWord word.toNumber))) := by
  have hnumber : encoding.isNumber = true := isNumber_iff.mpr (.inr hkind)
  have hheld : extendedWord word.toNumber < 256 ^ 16 :=
    (extendedWord_toNumber_lt hreal word).trans (by decide)
  unfold decode
  rw [units_of_length hnumber (length_encode hnumber word)]
  unfold encode
  simp only [hkind, List.getD_cons_zero]
  cases encoding.highestFirst with
  | false =>
    rw [if_neg (by decide), if_neg (by decide), Word.ofLittleEndian_littleEndian,
      Nat.mod_eq_of_lt hheld]
  | true => simp [swappedExtended]

end Elements

/-! ### Tensors -/

section Tensors

/-- What is read back of a tensor that is stored in an encoding of numbers: the tensor brought to
the stored type and back. The order of the bytes is not kept, so the bytes of each element are
turned round in between if the highest came first. -/
def restored (encoding : Encoding) (tensor : Tensor) : Tensor :=
  match encoding.kind with
  | .element stored =>
    let cast := tensor.convert stored
    (if encoding.highestFirst then cast.swapped else cast).convert tensor.elementType
  | _ =>
    tensor.map tensor.elementType fun word ↦
      let cast := extendedWord word.toNumber
      numberAs tensor.elementType
        (extendedNumber (if encoding.highestFirst then swappedExtended cast else cast))

/-- The elements of a tensor that are read back one by one make up a tensor. -/
theorem exists_words_of_decode (tensor : Tensor)
    {change : Word tensor.elementType → Word tensor.elementType}
    (hdecode : ∀ word : Word tensor.elementType,
      decode { kind := encoding.kind } tensor.elementType (encoding.encode word) =
        .ok (change word)) :
    ∃ words, (tensor.toList.map encoding.encode).mapM
        (decode { kind := encoding.kind } tensor.elementType) = .ok words ∧
      Tensor.ofElements? tensor.elementType tensor.shape words =
        some (tensor.map tensor.elementType change) := by
  refine ⟨tensor.toList.map change, ?_, tensor.ofElements?_map change⟩
  rw [Result.mapM_eq_ok_iff, List.forall₂_map_left_iff, List.forall₂_map_right_iff,
    List.forall₂_same]
  exact fun word _ ↦ hdecode word

theorem restored_same {tensor : Tensor} (hkind : encoding.kind = .element tensor.elementType) :
    encoding.restored tensor = tensor.map tensor.elementType fun word ↦
      if encoding.highestFirst then word.swapped else word := by
  unfold restored
  rw [hkind]
  dsimp only
  rw [tensor.convert_self]
  cases encoding.highestFirst with
  | false => exact tensor.convert_self.trans tensor.map_id.symm
  | true => exact tensor.swapped.convert_self

theorem restored_other {tensor : Tensor} {stored : ElementType}
    (hkind : encoding.kind = .element stored) (hother : stored ≠ tensor.elementType) :
    encoding.restored tensor = tensor.map tensor.elementType fun word ↦
      (if encoding.highestFirst then (word.convert stored).swapped
        else word.convert stored).convert tensor.elementType := by
  unfold restored
  rw [hkind]
  dsimp only
  rw [tensor.convert_of_ne (Ne.symm hother)]
  cases encoding.highestFirst with
  | false => exact (Tensor.convert_of_ne _ hother).trans (Tensor.map_map ..)
  | true =>
    have hswapped : (tensor.map stored (Word.convert stored)).swapped =
        tensor.map stored fun word ↦ (word.convert stored).swapped := Tensor.map_map ..
    rw [if_pos rfl, hswapped]
    exact (Tensor.convert_of_ne _ hother).trans (Tensor.map_map ..)

theorem restored_extended {tensor : Tensor} (hkind : encoding.kind = .extended) :
    encoding.restored tensor = tensor.map tensor.elementType fun word ↦
      numberAs tensor.elementType (extendedNumber
        (if encoding.highestFirst then swappedExtended (extendedWord word.toNumber)
          else extendedWord word.toNumber)) := by
  unfold restored
  rw [hkind]

/-- What is read back has the shape and the type of what was stored. -/
theorem restored_fields (hnumber : encoding.isNumber = true) (tensor : Tensor) :
    (encoding.restored tensor).elementType = tensor.elementType ∧
      (encoding.restored tensor).shape = tensor.shape := by
  rcases isNumber_iff.mp hnumber with ⟨stored, hkind⟩ | hkind
  · by_cases hsame : stored = tensor.elementType
    · subst hsame
      rw [restored_same hkind]
      exact ⟨rfl, rfl⟩
    · rw [restored_other hkind hsame]
      exact ⟨rfl, rfl⟩
  · rw [restored_extended hkind]
    exact ⟨rfl, rfl⟩

/-- The elements of a tensor that is stored in an encoding of numbers are read back, whatever byte
came first. -/
theorem exists_words (hnumber : encoding.isNumber = true) {tensor : Tensor}
    (hextended : encoding.kind = .extended → tensor.elementType.isReal = true) :
    ∃ words, (tensor.toList.map encoding.encode).mapM
        (decode { kind := encoding.kind } tensor.elementType) = .ok words ∧
      Tensor.ofElements? tensor.elementType tensor.shape words =
        some (encoding.restored tensor) := by
  rcases isNumber_iff.mp hnumber with ⟨stored, hkind⟩ | hkind
  · by_cases hsame : stored = tensor.elementType
    · subst hsame
      rw [restored_same hkind]
      exact exists_words_of_decode tensor (decode_encode_same hkind)
    · rw [restored_other hkind hsame]
      exact exists_words_of_decode tensor (decode_encode_other hkind hsame)
  · rw [restored_extended hkind]
    exact exists_words_of_decode tensor (decode_encode_extended hkind (hextended hkind))

/-- A tensor that is stored in its own type is read back as it was, if the lowest byte comes first.
-/
theorem restored_self {tensor : Tensor} (hkind : encoding.kind = .element tensor.elementType) :
    encoding.restored tensor = if encoding.highestFirst then tensor.swapped else tensor := by
  rw [restored_same hkind]
  cases encoding.highestFirst with
  | false => exact tensor.map_id
  | true => rfl

end Tensors

end Encoding

/-! ### Data in memory -/

namespace Strided

/-- A tensor that stands row by row, with the bytes of each element in the order of some data. -/
def refilled (data : Strided) (tensor : Tensor) : Strided :=
  { ofTensor tensor with highestFirst := data.isReversed }

/-- What is read back of data that is stored when a storage type is asked for. -/
def restored (storage : Option String) (data : Strided) : Strided :=
  match storageEncoding data.encoding storage with
  | .ok encoding => data.refilled (encoding.restored data.tensor)
  | .error _ => data

variable (data : Strided)

/-- Whether the elements stand row by row, with the lowest byte of each first. -/
def IsPlain : Prop := data.strides = Shape.strides data.tensor.shape ∧ data.highestFirst = false

instance : Decidable data.IsPlain := inferInstanceAs (Decidable (_ ∧ _))

theorem isPlain_iff : data.IsPlain ↔ data = ofTensor data.tensor := by
  obtain ⟨tensor, strides, highestFirst⟩ := data
  simp [IsPlain, ofTensor]

theorem restored_eq {storage : Option String} {encoding : Encoding}
    (hencoding : storageEncoding data.encoding storage = .ok encoding) :
    data.restored storage = data.refilled (encoding.restored data.tensor) := by
  rw [restored, hencoding]

/-- A tensor of the type of some data has the order of its bytes. -/
theorem isReversed_refilled {data : Strided} {tensor : Tensor}
    (htype : tensor.elementType = data.tensor.elementType) :
    (data.refilled tensor).isReversed = data.isReversed := by
  show (data.isReversed && decide (1 < tensor.elementType.byteCount)) = data.isReversed
  rw [htype, isReversed, Bool.and_assoc, Bool.and_self]

theorem typeName_refilled {data : Strided} {tensor : Tensor}
    (htype : tensor.elementType = data.tensor.elementType) :
    (data.refilled tensor).typeName = data.typeName := by
  show (if (data.refilled tensor).isReversed then ">" ++ tensor.elementType.code
    else tensor.elementType.name) = data.typeName
  rw [isReversed_refilled htype, htype]
  rfl

theorem encoding_refilled {data : Strided} {tensor : Tensor}
    (htype : tensor.elementType = data.tensor.elementType) :
    (data.refilled tensor).encoding = data.encoding := by
  show Encoding.mk (.element tensor.elementType) (data.refilled tensor).isReversed = data.encoding
  rw [isReversed_refilled htype, htype]
  rfl

/-- What is read back has the shape of what was stored and the name of its type. -/
theorem restored_named (storage : Option String) :
    (data.restored storage).tensor.shape = data.tensor.shape ∧
      (data.restored storage).typeName = data.typeName := by
  unfold restored
  cases hencoding : storageEncoding data.encoding storage with
  | error err => exact ⟨rfl, rfl⟩
  | ok encoding =>
    obtain ⟨htype, hshape⟩ := Encoding.restored_fields
      (Encoding.isNumber_of_storageEncoding hencoding) data.tensor
    exact ⟨hshape, typeName_refilled htype⟩

/-- What is read back of data that is stored as it stands in memory. -/
theorem restored_own {storage : Option String}
    (hown : storage = none ∨ data.tensor.elementType.isReal = false) :
    data.restored storage =
      data.refilled (if data.isReversed then data.tensor.swapped else data.tensor) := by
  rw [data.restored_eq (Encoding.storageEncoding_own hown), Encoding.restored_self rfl]
  rfl

theorem isReversed_of_isPlain {data : Strided} (hplain : data.IsPlain) :
    data.isReversed = false := by
  rw [isReversed, hplain.2, Bool.false_and]

/-- Without a storage type data is read back as it was, if it stands row by row with the lowest
bytes first. -/
theorem restored_none_of_isPlain {data : Strided} (hplain : data.IsPlain) :
    data.restored none = data := by
  rw [data.restored_own (.inl rfl), refilled, isReversed_of_isPlain hplain]
  exact (data.isPlain_iff.mp hplain).symm

end Strided

end Handover
