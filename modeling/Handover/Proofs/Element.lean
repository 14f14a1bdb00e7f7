import Handover.Element.Conversion
import Handover.Proofs.Number.Rounding

/-!
# Words of elements

A word is known by its bits, by the number it stands for unless that is none
(`Word.ofNumber_toNumber`), and by its bytes (`Word.ofBits_toBytes`).
-/

set_option autoImplicit false
set_option relaxedAutoImplicit false

namespace Handover.Word

@[simp] theorem ofBits_toNat {t : ElementType} (word : Word t) : ofBits t word.toNat = word := by
  unfold ofBits
  exact BitVec.eq_of_toNat_eq (Nat.mod_eq_of_lt word.isLt)

/-- A word of 64 bits that is no not-a-number is the nearest one of the number it stands for. -/
theorem ofNumber_toNumber {word : Word .float64} (hnumber : word.toNumber ≠ .nan) :
    ofNumber .float64 word.toNumber = word := by
  calc ofNumber .float64 word.toNumber
      = ofBits .float64 (BinaryFormat.double.encode (BinaryFormat.double.decode word.toNat)) := rfl
    _ = ofBits .float64 word.toNat := by rw [BinaryFormat.encode_decode word.isLt hnumber]
    _ = word := ofBits_toNat word

/-! ### Bytes -/

@[simp] theorem length_littleEndian (count value : Nat) :
    (littleEndian count value).length = count := by
  induction count generalizing value with
  | zero => rfl
  | succ count ih => rw [littleEndian, List.length_cons, ih]

/-- The lowest bytes of a natural write its remainder. -/
theorem ofLittleEndian_littleEndian (count value : Nat) :
    ofLittleEndian (littleEndian count value) = value % 256 ^ count := by
  induction count generalizing value with
  | zero => simp [littleEndian, ofLittleEndian, Nat.mod_one]
  | succ count ih =>
    rw [littleEndian, ofLittleEndian, ih, Nat.pow_succ', Nat.mod_mul]
    simp

/-- A word is read back from its bytes. -/
theorem ofBits_toBytes {t : ElementType} (word : Word t) :
    ofBits t (ofLittleEndian word.toBytes) = word := by
  have hlt : word.toNat < 256 ^ t.byteCount := by
    have hpower : 2 ^ t.width = 256 ^ t.byteCount := by rw [ElementType.width, Nat.pow_mul]
    exact hpower ▸ word.isLt
  rw [toBytes, ofLittleEndian_littleEndian, Nat.mod_eq_of_lt hlt, ofBits_toNat]

@[simp] theorem length_toBytes {t : ElementType} (word : Word t) :
    word.toBytes.length = t.byteCount := length_littleEndian ..

end Handover.Word
