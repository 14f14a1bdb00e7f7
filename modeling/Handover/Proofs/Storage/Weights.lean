import Handover.Proofs.Storage.Encodings

/-!
# Weights in storage

Weights are packed one after the other, and the manifest says where each stands
(`Packed.Holds`, `holds_of_pack`). A weight that is stored in an encoding of numbers comes back
brought to the stored type and back (`loadWeight_encoded`), if it keeps to the limits of tensors
(`Tensor.Fits`).
-/

set_option autoImplicit false
set_option relaxedAutoImplicit false

namespace Handover

/-- Whether a tensor keeps to the limits of tensors: it has no more dimensions and no more bytes
than a tensor may have, even if no dimension were empty. -/
def Tensor.Fits (tensor : Tensor) : Prop :=
  tensor.shape.length ≤ Attr.dimensionLimit ∧
    Shape.fits tensor.elementType.byteCount tensor.shape = true

instance (tensor : Tensor) : Decidable tensor.Fits := inferInstanceAs (Decidable (_ ∧ _))

/-! ### Shapes -/

namespace Shape

theorem size_filter_pos (shape : List Nat) : 0 < size (shape.filter fun length ↦ length != 0) := by
  induction shape with
  | nil => exact Nat.one_pos
  | cons length rest ih =>
    by_cases hzero : length = 0
    · simpa [hzero] using ih
    · rw [List.filter_cons_of_pos (by simpa using hzero)]
      exact Nat.mul_pos (Nat.pos_of_ne_zero hzero) ih

/-- The product of lengths that stay under the limit even if no length were zero. -/
theorem knownSize_eq_size {shape : List Nat} {known : Nat}
    (hfits : known * size (shape.filter fun length ↦ length != 0) ≤ byteLimit) :
    (shape.map Int.ofNat).foldlM (fun known length ↦
      if length < 0 then some known
      else
        let next := known * length.toNat
        if byteLimit < next then none else some next) known = some (known * size shape) := by
  induction shape generalizing known with
  | nil => simp [size]
  | cons length rest ih =>
    have hpositive := size_filter_pos rest
    have hnext : known * length * size (rest.filter fun length ↦ length != 0) ≤ byteLimit := by
      by_cases hzero : length = 0
      · simp [hzero]
      · rwa [List.filter_cons_of_pos (by simpa using hzero), size, ← Nat.mul_assoc] at hfits
    have hlimit : ¬ byteLimit < known * length :=
      Nat.not_lt.mpr ((Nat.le_mul_of_pos_right _ hpositive).trans hnext)
    rw [List.map_cons, List.foldlM_cons, if_neg (by simp)]
    simp only [Int.ofNat_eq_natCast, Int.toNat_natCast, if_neg hlimit, Option.bind_eq_bind,
      Option.bind_some]
    rw [size, ← Nat.mul_assoc]
    exact ih hnext

theorem size_le_size_filter (shape : List Nat) :
    size shape ≤ size (shape.filter fun length ↦ length != 0) := by
  induction shape with
  | nil => exact Nat.le_refl 1
  | cons length rest ih =>
    by_cases hzero : length = 0
    · simp [hzero, size]
    · rw [List.filter_cons_of_pos (by simpa using hzero)]
      exact Nat.mul_le_mul_left _ ih

theorem size_filter_le {byteCount : Nat} (hbyteCount : 0 < byteCount) {shape : List Nat}
    (hfits : fits byteCount shape = true) :
    size (shape.filter fun length ↦ length != 0) ≤ byteLimit := by
  rw [fits, decide_eq_true_eq] at hfits
  exact (Nat.le_mul_of_pos_left _ hbyteCount).trans hfits

theorem le_of_mem_of_fits {byteCount : Nat} (hbyteCount : 0 < byteCount) {shape : List Nat}
    (hfits : fits byteCount shape = true) {length : Nat} (hlength : length ∈ shape) :
    length ≤ byteLimit := by
  have hall := size_filter_le hbyteCount hfits
  clear hfits
  induction shape with
  | nil => simp at hlength
  | cons head rest ih =>
    have hpositive := size_filter_pos rest
    by_cases hzero : head = 0
    · rw [List.filter_cons_of_neg (by simp [hzero])] at hall
      rcases List.mem_cons.mp hlength with rfl | hlength
      · omega
      · exact ih hlength hall
    · rw [List.filter_cons_of_pos (by simpa using hzero), size] at hall
      rcases List.mem_cons.mp hlength with rfl | hlength
      · exact (Nat.le_mul_of_pos_right _ hpositive).trans hall
      · exact ih hlength ((Nat.le_mul_of_pos_left _ (Nat.pos_of_ne_zero hzero)).trans hall)

/-- A shape is found again from its lengths and the number of its elements. -/
theorem resolve?_eq_some {byteCount : Nat} (hbyteCount : 0 < byteCount) {shape : List Nat}
    (hfits : fits byteCount shape = true) :
    resolve? (size shape) (shape.map Int.ofNat) = some shape := by
  have hknown : knownSize? (shape.map Int.ofNat) = some (size shape) := by
    have hone : 1 * size (shape.filter fun length ↦ length != 0) ≤ byteLimit := by
      rw [Nat.one_mul]
      exact size_filter_le hbyteCount hfits
    rw [knownSize?, knownSize_eq_size hone, Nat.one_mul]
  have hclosed : (shape.map Int.ofNat).filter (fun length ↦ decide (length < 0)) = [] := by
    rw [List.filter_eq_nil_iff]
    simp
  simp only [resolve?, hknown, hclosed, List.length_nil, Option.bind_eq_bind, Option.bind_some,
    if_true, List.map_map]
  exact congrArg some (List.map_id shape)

end Shape

/-! ### One weight -/

/-- The bytes of the elements of a tensor in an encoding. -/
def Tensor.encoded (tensor : Tensor) (encoding : Encoding) : List UInt8 :=
  tensor.toList.flatMap encoding.encode

section Weight

/-- Parts of one length are cut from what they make up together. -/
theorem parts_flatten {length : Nat} {parts : List (List UInt8)}
    (hlength : ∀ part ∈ parts, part.length = length) (after : List UInt8) :
    Encoding.parts length parts.length (parts.flatten ++ after) = parts := by
  induction parts with
  | nil => rfl
  | cons part rest ih =>
    obtain ⟨hpart, hrest⟩ := List.forall_mem_cons.mp hlength
    rw [List.length_cons, Encoding.parts, List.flatten_cons, List.append_assoc, ← hpart,
      List.take_left, List.drop_left, hpart, ih hrest]

theorem holds_natCast {number : Nat} (hnumber : number ≤ Shape.byteLimit) :
    ElementType.int64.holds number = true := by
  have hlimit : Shape.byteLimit = 2 ^ 63 - 1 := rfl
  simp [ElementType.holds, ElementType.kind]
  omega

theorem requireHeld_natCast {number : Nat} (hnumber : number ≤ Shape.byteLimit) :
    requireHeld number = .ok (number : Int) := by
  rw [requireHeld, if_pos (holds_natCast hnumber)]

/-- The lengths of a tensor that keeps to the limits are read from its shape. -/
theorem itemLengths_shape {data : Tensor} (hfits : data.Fits) :
    Attr.itemLengths (data.shape.map fun length : Nat ↦ Attr.int length) =
      .ok (data.shape.map Int.ofNat) := by
  rw [Attr.itemLengths, if_neg (by simpa using hfits.1), Result.mapM_eq_ok_iff,
    List.forall₂_map_left_iff, List.forall₂_map_right_iff, List.forall₂_same]
  intro length hlength
  have hlimit := Shape.le_of_mem_of_fits (Encoding.byteCount_pos _) hfits.2 hlength
  simp [Attr.asLength, Attr.whole?, holds_natCast hlimit]

theorem loadedType_typeName {data : Strided} (hfits : data.tensor.Fits) :
    loadedType data.typeName data.tensor.shape =
      .ok (data.tensor.elementType, data.isReversed) := by
  rw [loadedType, Encoding.named_typeName, Result.ok_bind]
  exact if_pos hfits.2

theorem length_toList (data : Tensor) : data.toList.length = Shape.size data.shape := by
  rw [Tensor.toList, Array.length_toList, data.size_eq]

variable {encoding : Encoding} (hnumber : encoding.isNumber = true) {data : Tensor}

include hnumber

theorem length_encoded (data : Tensor) :
    (data.encoded encoding).length = Shape.size data.shape * encoding.kind.byteCount := by
  simp [Tensor.encoded, List.length_flatMap, Encoding.length_encode hnumber, length_toList]

theorem elementsAt_encoded (before after : List UInt8) :
    elementsAt encoding.kind.byteCount (before ++ (data.encoded encoding ++ after)) before.length
      (Shape.size data.shape : Nat) = .ok (data.toList.map encoding.encode) := by
  have hrest : (before ++ (data.encoded encoding ++ after)).drop before.length =
      data.encoded encoding ++ after := List.drop_left
  have hlength := length_encoded hnumber data
  have hlengths : ∀ part ∈ data.toList.map encoding.encode,
      part.length = encoding.kind.byteCount := by
    simp [Encoding.length_encode hnumber]
  have hparts := parts_flatten hlengths after
  rw [List.length_map, length_toList] at hparts
  unfold elementsAt
  rw [if_neg (by simp only [List.length_append]; omega), Int.toNat_natCast, hrest]
  dsimp only
  rw [if_neg (by omega), if_neg, Int.toNat_natCast, Tensor.encoded, List.flatMap_def, hparts]
  · rw [List.length_append, hlength]
    push_cast
    omega

theorem elementCount_encoded (data : Tensor) :
    elementCount (.int (data.encoded encoding).length) encoding.kind.byteCount =
      .ok (some (Shape.size data.shape : Nat)) := by
  have hpositive := Encoding.byteCount_kind_pos hnumber
  rw [elementCount, if_neg hpositive.ne', length_encoded hnumber]
  simp only [Attr.asInteger, Result.ok_bind]
  rw [Nat.cast_mul, Int.mul_fdiv_cancel _ (Int.natCast_ne_zero.mpr hpositive.ne')]
  rfl

theorem loadedShape_encoded (hstored : Shape.fits encoding.kind.byteCount data.shape = true) :
    loadedShape (data.toList.map encoding.encode).length encoding.kind.byteCount
      (data.shape.map Int.ofNat) = .ok data.shape := by
  rw [loadedShape, List.length_map, length_toList,
    Shape.resolve?_eq_some (Encoding.byteCount_kind_pos hnumber) hstored]
  exact if_pos hstored

/-- A weight that is stored in an encoding of numbers comes back brought to the stored type and
back. -/
theorem loadWeight_encoded {weight : Strided} {info : TensorInfo} {name : String}
    {before after : List UInt8}
    (hextended : encoding.kind = .extended → weight.tensor.elementType.isReal = true)
    (hfits : weight.tensor.Fits)
    (hstored : Shape.fits encoding.kind.byteCount weight.tensor.shape = true)
    (hshape : info.shape = weight.tensor.shape.map fun length : Nat ↦ Attr.int length)
    (htype : info.elementType = weight.typeName)
    (hlimit : before.length ≤ Shape.byteLimit) :
    loadWeight info (ManifestEntry.toRecord
      ⟨name, before.length, (weight.tensor.encoded encoding).length, encoding⟩)
      (before ++ (weight.tensor.encoded encoding ++ after)) =
      .ok (weight.refilled (encoding.restored weight.tensor)) := by
  have hsize : Shape.size weight.tensor.shape ≤ Shape.byteLimit :=
    (Shape.size_le_size_filter _).trans (Shape.size_filter_le (Encoding.byteCount_pos _) hfits.2)
  obtain ⟨words, hwords, htensor⟩ := Encoding.exists_words hnumber hextended
  generalize hentry : ManifestEntry.toRecord
    ⟨name, before.length, (weight.tensor.encoded encoding).length, encoding⟩ = entry
  obtain ⟨fields, hfields, hdtype⟩ : ∃ fields, entry.fields = .ok fields ∧
      ∀ default, (fields.find? "dtype").getD default = .text encoding.name := by
    subst hentry
    exact ⟨_, rfl, fun _ ↦ rfl⟩
  have hlength : entry.entry "size" = .ok (.int (weight.tensor.encoded encoding).length) := by
    subst hentry
    rfl
  have hoffset : entry.entry "offset" = .ok (.int before.length) := by
    subst hentry
    rfl
  have hencoding : Encoding.ofAttr (.text encoding.name) = .ok { kind := encoding.kind } :=
    Encoding.named_name_eq hnumber
  have hkind : encoding.kind ≠ .reference := by
    rcases Encoding.isNumber_iff.mp hnumber with ⟨t, hkind⟩ | hkind <;> simp [hkind]
  unfold loadWeight
  rw [hfields, Result.ok_bind, hdtype, hencoding, Result.ok_bind]
  dsimp only
  rw [hlength, Result.ok_bind, elementCount_encoded hnumber, Result.ok_bind, hoffset,
    Result.ok_bind]
  dsimp only
  rw [requireHeld_natCast hsize, Result.ok_bind, Attr.asInteger, Result.ok_bind,
    requireHeld_natCast hlimit, Result.ok_bind, if_neg hkind, elementsAt_encoded hnumber,
    Result.ok_bind, hshape, itemLengths_shape hfits, Result.ok_bind,
    loadedShape_encoded hnumber hstored, Result.ok_bind, htype, loadedType_typeName hfits,
    Result.ok_bind]
  dsimp only
  rw [hwords, Result.ok_bind, htensor]
  rfl

end Weight

/-! ### Packed weights -/

section Packing

/-- The data of a tensor of a graph, if it is at hand. -/
def Graph.data? (graph : Graph) (name : String) : Option Strided :=
  (graph.tensors.find? name).bind TensorInfo.buffer

variable {graph : Graph} {storage : Option String} {names : List String} {packed next : Packed}

/-- Whether the entries of a manifest stand one right after the other, from one place to another. -/
def Tiles : Nat → List ManifestEntry → Nat → Prop
  | start, [], stop => start = stop
  | start, entry :: rest, stop => entry.offset = start ∧ Tiles (start + entry.size) rest stop

theorem Tiles.push {start stop : Nat} {manifest : List ManifestEntry}
    (htiles : Tiles start manifest stop) (name : String) (size : Nat) (encoding : Encoding) :
    Tiles start (manifest ++ [⟨name, stop, size, encoding⟩]) (stop + size) := by
  induction manifest generalizing start with
  | nil =>
    obtain rfl : start = stop := htiles
    exact ⟨rfl, rfl⟩
  | cons entry rest ih => exact ⟨htiles.1, ih htiles.2⟩

/-- The sizes of entries that stand one right after the other make up the whole. -/
theorem Tiles.sum_size {start stop : Nat} {manifest : List ManifestEntry}
    (htiles : Tiles start manifest stop) :
    start + (manifest.map ManifestEntry.size).sum = stop := by
  induction manifest generalizing start with
  | nil => exact htiles
  | cons entry rest ih =>
    rw [List.map_cons, List.sum_cons, ← Nat.add_assoc]
    exact ih htiles.2

/-- Packed weights are those of some constants: the entries of the manifest are those of the
constants with data, in order and one right after the other, and each says where the data stands. -/
structure Packed.Holds (graph : Graph) (storage : Option String) (names : List String)
    (packed : Packed) : Prop where
  length : packed.length = packed.blobs.flatten.length
  entries : packed.manifest.length = packed.blobs.length
  placed : ∀ entry ∈ packed.manifest, ∃ data encoding before after,
    entry.name ∈ names ∧ graph.data? entry.name = some data ∧
      storageEncoding data.encoding storage = .ok encoding ∧
      entry = ⟨entry.name, before.length, (data.tensor.encoded encoding).length, encoding⟩ ∧
      packed.blobs.flatten = before ++ (data.tensor.encoded encoding ++ after)
  order : packed.manifest.map ManifestEntry.name =
    names.filter fun name ↦ (graph.data? name).isSome
  tiles : Tiles 0 packed.manifest packed.length

/-- Every constant with data has an entry. -/
theorem Packed.Holds.complete (hholds : packed.Holds graph storage names) {name : String}
    (hname : name ∈ names) {data : Strided} (hdata : graph.data? name = some data) :
    name ∈ packed.manifest.map ManifestEntry.name := by
  rw [hholds.order, List.mem_filter, hdata]
  exact ⟨hname, rfl⟩

theorem find?_of_tensor_eq_ok {name : String} {info : TensorInfo}
    (hinfo : graph.tensor name = .ok info) : graph.tensors.find? name = some info := by
  unfold Graph.tensor at hinfo
  split at hinfo
  · rename_i hfound
    rw [hfound, Except.ok.inj hinfo]
  · cases hinfo

/-- What one constant adds to packed weights. -/
theorem pushConstant_eq_ok {name : String}
    (hnext : packed.pushConstant graph storage name = .ok next) :
    (graph.data? name = none ∧ next = packed) ∨
      ∃ data encoding, graph.data? name = some data ∧
        storageEncoding data.encoding storage = .ok encoding ∧
        next = packed.push name encoding (data.tensor.encoded encoding) := by
  obtain ⟨info, hinfo, hnext⟩ := Result.bind_eq_ok_iff.mp hnext
  have hfound := find?_of_tensor_eq_ok hinfo
  have hdata : graph.data? name = info.buffer := by
    rw [Graph.data?, hfound, Option.bind_some]
  rw [hdata]
  cases hbuffer : info.buffer with
  | none =>
    rw [hbuffer] at hnext
    exact .inl ⟨rfl, (Except.ok.inj hnext).symm⟩
  | some data =>
    rw [hbuffer] at hnext
    obtain ⟨encoding, hencoding, hnext⟩ := Result.bind_eq_ok_iff.mp hnext
    exact .inr ⟨data, encoding, rfl, hencoding, (Except.ok.inj hnext).symm⟩

theorem Packed.Holds.pushConstant {name : String} (hholds : packed.Holds graph storage names)
    (hnext : packed.pushConstant graph storage name = .ok next) :
    next.Holds graph storage (names ++ [name]) := by
  rcases pushConstant_eq_ok hnext with ⟨hnone, rfl⟩ | ⟨data, encoding, hdata, hencoding, rfl⟩
  · refine ⟨hholds.length, hholds.entries, fun entry hentry ↦ ?_, ?_, hholds.tiles⟩
    · obtain ⟨data, encoding, before, after, hname, hrest⟩ := hholds.placed entry hentry
      exact ⟨data, encoding, before, after, List.mem_append_left _ hname, hrest⟩
    · simp [hholds.order, hnone]
  · refine ⟨?_, ?_, fun entry hentry ↦ ?_, ?_, hholds.tiles.push ..⟩
    · simp [Packed.push, hholds.length]
    · simp [Packed.push, hholds.entries]
    · rcases List.mem_append.mp hentry with hentry | hentry
      · obtain ⟨stored, encoding', before, after, hname, hstored, hencoding', hplace, hbytes⟩ :=
          hholds.placed entry hentry
        refine ⟨stored, encoding', before, after ++ data.tensor.encoded encoding,
          List.mem_append_left _ hname, hstored, hencoding', hplace, ?_⟩
        simp [Packed.push, hbytes]
      · obtain rfl := List.mem_singleton.mp hentry
        refine ⟨data, encoding, packed.blobs.flatten, [], by simp, hdata, hencoding, ?_, ?_⟩
        · rw [hholds.length]
        · simp [Packed.push]
    · simp [Packed.push, hholds.order, hdata]

theorem Packed.Holds.foldlM {others : List String} (hholds : packed.Holds graph storage names)
    (hnext : others.foldlM (Packed.pushConstant graph storage) packed = .ok next) :
    next.Holds graph storage (names ++ others) := by
  induction others generalizing names packed with
  | nil =>
    obtain rfl := Except.ok.inj hnext
    rwa [List.append_nil]
  | cons name rest ih =>
    rw [List.foldlM_cons] at hnext
    obtain ⟨middle, hmiddle, hnext⟩ := Result.bind_eq_ok_iff.mp hnext
    have hrest := ih (hholds.pushConstant hmiddle) hnext
    rwa [List.append_assoc, List.singleton_append] at hrest

theorem holds_of_pack (hpacked : graph.pack storage = .ok packed) :
    packed.Holds graph storage graph.constants := by
  have hstart : Packed.Holds graph storage [] {} := ⟨rfl, rfl, by simp, rfl, rfl⟩
  exact hstart.foldlM hpacked

end Packing

end Handover
