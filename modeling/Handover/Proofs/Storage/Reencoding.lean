import Handover.Proofs.Number.Widening
import Handover.Proofs.Storage.Weights

/-!
# Weights that are stored again

Digits are lost the first time a weight is stored and never again: of two floating-point types one
has all the numbers of the other (`BinaryFormat.widens_or_widens`), so a word that came from the
other type goes back there and returns as it was (`Word.convert_convert_convert`), and the widest
type keeps every word (`Encoding.numberAs_extended`). So a weight that is read back is stored as the
bytes it was read from (`encoded_restored`), if the lowest byte comes first and no element is a
not-a-number. A weight in its own type is stored with the lowest byte first the second time,
whichever came first before (`encoded_restored_own`).
-/

set_option autoImplicit false
set_option relaxedAutoImplicit false

namespace Handover

/-- Whether no element of a tensor is a not-a-number. -/
def Tensor.HasNoNaN (tensor : Tensor) : Prop := ∀ word ∈ tensor.toList, word.toNumber ≠ .nan

-- The elements are tried, and not all words of the type.
instance (tensor : Tensor) : Decidable tensor.HasNoNaN :=
  List.decidableBAll (fun word : Word tensor.elementType ↦ word.toNumber ≠ .nan) tensor.toList

/-! ### Floating-point types -/

section Formats

variable {s t : ElementType} {first second : BinaryFormat}

theorem ElementType.isReal_iff : t.isReal = true ↔ ∃ format, t.kind = .real format := by
  cases t <;> simp [ElementType.isReal, ElementType.kind]

theorem ElementType.two_mul_signWord (hkind : t.kind = .real first) :
    2 * first.signWord = 2 ^ t.width := by
  cases t with
  | float16 | float32 | float64 =>
    obtain rfl := ElementKind.real.inj hkind
    rfl
  | _ => cases hkind

/-- Of two floating-point types one is wider. -/
theorem BinaryFormat.widens_or_widens (hfirst : s.kind = .real first)
    (hsecond : t.kind = .real second) (hother : s ≠ t) :
    first.Widens second ∨ second.Widens first := by
  cases s <;> cases hfirst <;> cases t <;> cases hsecond
  · exact absurd rfl hother
  · exact .inl half_widens_single
  · exact .inl half_widens_double
  · exact .inr half_widens_single
  · exact absurd rfl hother
  · exact .inl single_widens_double
  · exact .inr half_widens_double
  · exact .inr single_widens_double
  · exact absurd rfl hother

end Formats

namespace Word

variable {s t : ElementType} {first second : BinaryFormat}

theorem toNumber_of_kind (hkind : t.kind = .real first) (word : Word t) :
    word.toNumber = first.decode word.toNat := by
  simp only [toNumber, hkind]

/-- A floating-point word is converted as its format is. -/
theorem toNat_convert (hfirst : s.kind = .real first) (hsecond : t.kind = .real second)
    {word : Word s} (hnumber : word.toNumber ≠ .nan) :
    (word.convert t).toNat = first.convert second word.toNat := by
  rw [toNumber_of_kind hfirst] at hnumber
  have hlt : first.convert second word.toNat < 2 ^ t.width := by
    rw [BinaryFormat.convert_of_ne_nan first second hnumber, ← ElementType.two_mul_signWord hsecond]
    exact BinaryFormat.encode_lt second hnumber
  simp only [convert, hfirst, hsecond]
  rw [ofBits, BitVec.toNat_ofNat, Nat.mod_eq_of_lt hlt]

theorem toNumber_convert_ne_nan (hfirst : s.kind = .real first) (hsecond : t.kind = .real second)
    {word : Word s} (hnumber : word.toNumber ≠ .nan) : (word.convert t).toNumber ≠ .nan := by
  rw [toNumber_of_kind hsecond, toNat_convert hfirst hsecond hnumber]
  rw [toNumber_of_kind hfirst] at hnumber
  rw [BinaryFormat.convert_of_ne_nan first second hnumber]
  exact BinaryFormat.decode_encode_ne_nan hnumber

/-- A word comes back from a wider type as it was. -/
theorem convert_convert (hfirst : s.kind = .real first) (hsecond : t.kind = .real second)
    (hwidens : first.Widens second) {word : Word s} (hnumber : word.toNumber ≠ .nan) :
    (word.convert t).convert s = word := by
  have hlt : word.toNat < 2 * first.signWord := by
    rw [ElementType.two_mul_signWord hfirst]
    exact word.isLt
  have hthere := toNumber_convert_ne_nan hfirst hsecond hnumber
  refine BitVec.eq_of_toNat_eq ?_
  rw [toNat_convert hsecond hfirst hthere, toNat_convert hfirst hsecond hnumber]
  rw [toNumber_of_kind hfirst] at hnumber
  exact hwidens.convert_convert hlt hnumber

/-- Digits are lost at most once on the way between two floating-point types. -/
theorem convert_convert_convert (hs : s.isReal = true) (ht : t.isReal = true) (hother : s ≠ t)
    {word : Word s} (hnumber : word.toNumber ≠ .nan) :
    ((word.convert t).convert s).convert t = word.convert t := by
  obtain ⟨first, hfirst⟩ := ElementType.isReal_iff.mp hs
  obtain ⟨second, hsecond⟩ := ElementType.isReal_iff.mp ht
  rcases BinaryFormat.widens_or_widens hfirst hsecond hother with hwidens | hwidens
  · rw [convert_convert hfirst hsecond hwidens hnumber]
  · exact convert_convert hsecond hfirst hwidens (toNumber_convert_ne_nan hfirst hsecond hnumber)

/-! ### Bytes -/

/-- Some bytes are those of the natural that they write. -/
theorem littleEndian_ofLittleEndian (bytes : List UInt8) :
    littleEndian bytes.length (ofLittleEndian bytes) = bytes := by
  induction bytes with
  | nil => rfl
  | cons byte rest ih =>
    have hbyte := byte.toNat_lt
    have hlow : UInt8.ofNat (byte.toNat + 256 * ofLittleEndian rest) = byte := by
      refine UInt8.toNat.inj ?_
      rw [UInt8.toNat_ofNat']
      omega
    have hrest : (byte.toNat + 256 * ofLittleEndian rest) / 256 = ofLittleEndian rest := by omega
    rw [List.length_cons, ofLittleEndian, littleEndian, hlow, hrest, ih]

theorem ofLittleEndian_lt (bytes : List UInt8) : ofLittleEndian bytes < 256 ^ bytes.length := by
  induction bytes with
  | nil => exact Nat.one_pos
  | cons byte rest ih =>
    have hbyte := byte.toNat_lt
    rw [List.length_cons, ofLittleEndian, Nat.pow_succ']
    omega

/-- An element whose bytes are given. -/
theorem toBytes_ofBits {bytes : List UInt8} (hlength : bytes.length = t.byteCount) :
    (ofBits t (ofLittleEndian bytes)).toBytes = bytes := by
  have hpower : 2 ^ t.width = 256 ^ t.byteCount := by rw [ElementType.width, Nat.pow_mul]
  have hlt := ofLittleEndian_lt bytes
  rw [hlength, ← hpower] at hlt
  rw [toBytes, ofBits, BitVec.toNat_ofNat, Nat.mod_eq_of_lt hlt, ← hlength,
    littleEndian_ofLittleEndian]

theorem toBytes_swapped (word : Word t) : word.swapped.toBytes = word.toBytes.reverse :=
  toBytes_ofBits (by rw [List.length_reverse, length_toBytes])

end Word

namespace Encoding

/-! ### Numbers of 80 bits -/

section Extended

theorem extendedNumber_of_parts (negative : Bool) {field significand : Nat}
    (hfield : field < 2 ^ 15 - 1) (hsignificand : significand < 2 ^ 64) :
    extendedNumber (if negative then Nat.pow 2 79 + (field * Nat.pow 2 64 + significand)
      else field * Nat.pow 2 64 + significand) =
        .finite negative significand ((Nat.max field 1 : Int) - 16383 - 63) := by
  have hlow : Nat.pow 2 64 = 2 ^ 64 := rfl
  have hhigh : Nat.pow 2 79 = 2 ^ 79 := rfl
  have hmiddle : Nat.pow 2 15 = 2 ^ 15 := rfl
  generalize hword : (if negative then Nat.pow 2 79 + (field * Nat.pow 2 64 + significand)
      else field * Nat.pow 2 64 + significand) = word
  have hcut : word % 2 ^ 64 = significand ∧ word / 2 ^ 64 % 2 ^ 15 = field ∧
      decide (word / 2 ^ 79 % 2 = 1) = negative := by
    cases negative <;> simp at hword ⊢ <;> omega
  obtain ⟨hfirst, hsecond, hthird⟩ := hcut
  unfold extendedNumber
  simp only [hlow, hhigh, hmiddle, hfirst, hsecond, hthird]
  rw [if_neg (by omega)]

/-- The widest type has the numbers of the others. -/
theorem extendedNumber_extendedWord {number : BinaryNumber} (hnumber : number ≠ .nan)
    (hrange : ∀ negative mantissa exponent, number = .finite negative mantissa exponent →
      mantissa < 2 ^ 64 ∧ exponent ≤ 1024 ∧ -1074 ≤ exponent) :
    (extendedNumber (extendedWord number)).Agrees number := by
  cases number with
  | nan => exact absurd rfl hnumber
  | infinite negative =>
    have hinfinite : extendedNumber (extendedWord (.infinite negative)) = .infinite negative := by
      cases negative <;> decide
    rw [hinfinite]
    exact .infinite negative
  | finite negative mantissa exponent =>
    obtain ⟨hmantissa, hhigh, hlow⟩ := hrange negative mantissa exponent rfl
    unfold extendedWord
    dsimp only
    by_cases hzero : mantissa = 0
    · subst hzero
      rw [if_pos rfl]
      have hparts := extendedNumber_of_parts negative (by decide : 0 < 2 ^ 15 - 1)
        (by decide : 0 < 2 ^ 64)
      rw [Nat.zero_mul] at hparts
      rw [hparts]
      exact .finite negative (by simp)
    · rw [if_neg hzero]
      have hsignificand := shifted_lt hzero hmantissa
      have hshift : 63 - Nat.log2 mantissa ≤ 63 := Nat.sub_le ..
      generalize 63 - Nat.log2 mantissa = shift at hsignificand hshift ⊢
      obtain ⟨field, hfield⟩ := Int.eq_ofNat_of_zero_le
        (by omega : 0 ≤ exponent - (shift : Int) + 16383 + 63)
      have hexponent : (Nat.max field 1 : Int) - 16383 - 63 = exponent - (shift : Int) := by
        have hmax : Nat.max field 1 = field := Nat.max_eq_left (by omega)
        rw [hmax]
        omega
      have hparts := extendedNumber_of_parts negative (by omega : field < 2 ^ 15 - 1) hsignificand
      rw [hfield, Int.toNat_natCast, (Nat.pow_eq : Nat.pow 2 shift = 2 ^ shift), hparts, hexponent]
      refine .finite negative ?_
      rw [Nat.cast_mul, Nat.cast_pow, Nat.cast_ofNat, mul_assoc, ← zpow_natCast,
        ← zpow_add₀ two_ne_zero, add_sub_cancel]

/-- An element that is brought to the widest type and back is as it was. -/
theorem numberAs_extended {t : ElementType} (hreal : t.isReal = true) {word : Word t}
    (hnumber : word.toNumber ≠ .nan) :
    numberAs t (extendedNumber (extendedWord word.toNumber)) = word := by
  obtain ⟨format, hkind⟩ := ElementType.isReal_iff.mp hreal
  have hlt : word.toNat < 2 * format.signWord := by
    rw [ElementType.two_mul_signWord hkind]
    exact word.isLt
  have hagrees : (extendedNumber (extendedWord word.toNumber)).Agrees word.toNumber := by
    refine extendedNumber_extendedWord hnumber fun negative mantissa exponent hfinite ↦ ?_
    rw [Word.toNumber_of_kind hkind] at hfinite
    have hlow := (BinaryFormat.decode_eq_finite hlt hfinite).1.low
    cases t with
    | float16 | float32 | float64 =>
      obtain rfl := ElementKind.real.inj hkind
      obtain ⟨hmantissa, hexponent⟩ := decode_range (by decide) (by decide) hfinite
      exact ⟨hmantissa, hexponent, hlow.trans' (by decide)⟩
    | _ => cases hkind
  rw [Word.toNumber_of_kind hkind] at hagrees hnumber ⊢
  simp only [numberAs, Word.ofNumber, hkind]
  rw [BinaryFormat.encode_congr hagrees, BinaryFormat.encode_decode hlt hnumber, Word.ofBits_toNat]

end Extended

end Encoding

/-! ### Tensors -/

section Tensors

variable {encoding : Encoding} {data : Tensor}

theorem encoded_map {t : ElementType} (change : Word data.elementType → Word t) :
    (data.map t change).encoded encoding =
      data.toList.flatMap fun word ↦ encoding.encode (change word) := by
  simp [Tensor.encoded, Tensor.toList, Tensor.map, List.flatMap_map]

theorem encoded_map_eq {t : ElementType} {change : Word data.elementType → Word t}
    {other : Encoding}
    (hsame : ∀ word ∈ data.toList, encoding.encode (change word) = other.encode word) :
    (data.map t change).encoded encoding = data.encoded other := by
  rw [encoded_map, Tensor.encoded, List.flatMap_def, List.flatMap_def, List.map_congr_left hsame]

/-- A weight that is read back takes as many bytes as before. -/
theorem length_encoded_restored (hnumber : encoding.isNumber = true) (data : Tensor) :
    ((encoding.restored data).encoded encoding).length = (data.encoded encoding).length := by
  rw [length_encoded hnumber, length_encoded hnumber, (Encoding.restored_fields hnumber data).2]

/-- A weight that is read back is stored as the bytes it was read from. Assumes: it is stored in its
own type or in a floating-point one, the lowest byte comes first, and no element is a
not-a-number. -/
theorem encoded_restored (hencoding : encoding.kind = .element data.elementType ∨
      data.elementType.isReal = true ∧ encoding.isReal = true)
    (hlowest : encoding.highestFirst = false) (hnumbers : data.HasNoNaN) :
    (encoding.restored data).encoded encoding = data.encoded encoding := by
  rcases hencoding with hkind | ⟨hruntime, hreal⟩
  · rw [Encoding.restored_self hkind, hlowest]
    rfl
  rcases Encoding.isNumber_iff.mp (Encoding.isNumber_of_isReal hreal) with ⟨stored, hkind⟩ | hkind
  · by_cases hsame : stored = data.elementType
    · subst hsame
      rw [Encoding.restored_self hkind, hlowest]
      rfl
    · have hstored : stored.isReal = true := by
        rw [Encoding.isReal, hkind] at hreal
        exact hreal
      rw [Encoding.restored_other hkind hsame]
      refine encoded_map_eq fun word hword ↦ ?_
      have hback :=
        Word.convert_convert_convert hruntime hstored (Ne.symm hsame) (hnumbers word hword)
      simp only [Encoding.encode, hkind, hlowest, hsame, if_false, hback, Bool.false_eq_true]
  · rw [Encoding.restored_extended hkind]
    refine encoded_map_eq fun word hword ↦ ?_
    rw [hlowest, if_neg Bool.false_ne_true,
      Encoding.numberAs_extended hruntime (hnumbers word hword)]

/-- A weight that is read back and stored again in its own type is stored with the lowest byte of
each element first, whichever came first before. -/
theorem encoded_restored_own (hkind : encoding.kind = .element data.elementType) :
    (encoding.restored data).encoded encoding = data.encoded (.ofElementType data.elementType) := by
  rw [Encoding.restored_same hkind]
  refine encoded_map_eq fun word _ ↦ ?_
  cases hhighest : encoding.highestFirst <;>
    simp [Encoding.encode, hkind, hhighest, Encoding.ofElementType, Word.toBytes_swapped]

end Tensors

end Handover
