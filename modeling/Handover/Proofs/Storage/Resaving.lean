import Handover.Proofs.Document.Cut
import Handover.Proofs.Storage.Reencoding
import Handover.Proofs.Storage.Roundtrip

/-!
# Saving a graph that was loaded

A graph that is saved, loaded and saved again writes the files of the graph with its nodes numbered
by their places (`save_load_save`), and so the same files if these are its identifiers. Its document
is in normal form after the first time (`Document.writeValue_stored`), and so are its weights
(`encoded_restored`), as constants that are stored alike are packed alike (`pack_alike`).

A weight that is stored with its highest byte first is the exception, as the manifest does not say
so: the document is the same, but the bytes of each element are turned round (`bytes_turned_back`).
-/

set_option autoImplicit false
set_option relaxedAutoImplicit false

namespace Handover

/-! ### Packing weights that are alike -/

section Packing

/-- Whether two weights take the same number of bytes. -/
def SameLength (first second : List UInt8) : Prop := second.length = first.length

/-- Whether the data of a constant is stored in two graphs in encodings of one name and as bytes
that are related. -/
structure StoredAlike (related : List UInt8 → List UInt8 → Prop) (graph : Graph)
    (storage : Option String) (other : Graph) (storageOther : Option String) (name : String) :
    Prop where
  registered : (graph.tensors.find? name).isSome = true → (other.tensors.find? name).isSome = true
  missing : graph.data? name = none → other.data? name = none
  present : ∀ data encoding, graph.data? name = some data →
    storageEncoding data.encoding storage = .ok encoding →
      ∃ dataOther encodingOther, other.data? name = some dataOther ∧
        storageEncoding dataOther.encoding storageOther = .ok encodingOther ∧
        encodingOther.name = encoding.name ∧
        related (data.tensor.encoded encoding) (dataOther.tensor.encoded encodingOther)

/-- Whether packed weights have the same manifest, as a document holds it, and bytes that are
related. -/
structure Packed.Alike (related : List UInt8 → List UInt8 → Prop) (packed other : Packed) :
    Prop where
  records : (other.manifest.map fun entry ↦ (entry.name, entry.toRecord)) =
    packed.manifest.map fun entry ↦ (entry.name, entry.toRecord)
  length : other.length = packed.length
  blobs : List.Forall₂ related packed.blobs other.blobs

variable {related : List UInt8 → List UInt8 → Prop} {graph other : Graph}
  {storage storageOther : Option String} {packed again next : Packed}

theorem isSome_of_pushConstant {name : String}
    (hnext : packed.pushConstant graph storage name = .ok next) :
    (graph.tensors.find? name).isSome = true := by
  obtain ⟨info, hinfo, -⟩ := Result.bind_eq_ok_iff.mp hnext
  rw [find?_of_tensor_eq_ok hinfo]
  rfl

/-- A constant without data adds nothing. -/
theorem pushConstant_of_none {name : String} (hfound : (graph.tensors.find? name).isSome = true)
    (hnone : graph.data? name = none) : packed.pushConstant graph storage name = .ok packed := by
  obtain ⟨info, hinfo⟩ := Option.isSome_iff_exists.mp hfound
  have htensor : graph.tensor name = .ok info := by rw [Graph.tensor, hinfo]
  rw [Graph.data?, hinfo, Option.bind_some] at hnone
  rw [Packed.pushConstant, htensor, Result.ok_bind, hnone]
  rfl

/-- A constant with data adds the data. -/
theorem pushConstant_of_some {name : String} {data : Strided} {encoding : Encoding}
    (hdata : graph.data? name = some data)
    (hencoding : storageEncoding data.encoding storage = .ok encoding) :
    packed.pushConstant graph storage name =
      .ok (packed.push name encoding (data.tensor.encoded encoding)) := by
  obtain ⟨info, hinfo, hbuffer⟩ := Option.bind_eq_some_iff.mp hdata
  have htensor : graph.tensor name = .ok info := by rw [Graph.tensor, hinfo]
  rw [Packed.pushConstant, htensor, Result.ok_bind, hbuffer]
  dsimp only
  rw [hencoding]
  rfl

variable (hlength : ∀ first second, related first second → SameLength first second)

include hlength

theorem Packed.Alike.push (halike : packed.Alike related again) (name : String)
    {encoding encodingOther : Encoding} {bytes bytesOther : List UInt8}
    (hname : encodingOther.name = encoding.name) (hbytes : related bytes bytesOther) :
    (packed.push name encoding bytes).Alike related (again.push name encodingOther bytesOther) := by
  obtain ⟨hrecords, htotal, hblobs⟩ := halike
  have hsize : bytesOther.length = bytes.length := hlength _ _ hbytes
  refine ⟨?_, ?_, ?_⟩
  · rw [Packed.push, Packed.push, List.map_append, List.map_append, hrecords, htotal, hsize]
    simp [ManifestEntry.toRecord, hname]
  · simp [Packed.push, htotal, hsize]
  · exact List.rel_append hblobs (.cons hbytes .nil)

/-- A constant that is stored alike keeps packed weights alike. -/
theorem Packed.Alike.pushConstant {name : String} (halike : packed.Alike related again)
    (hstored : StoredAlike related graph storage other storageOther name)
    (hnext : packed.pushConstant graph storage name = .ok next) :
    ∃ nextAgain, again.pushConstant other storageOther name = .ok nextAgain ∧
      next.Alike related nextAgain := by
  have hfound := hstored.registered (isSome_of_pushConstant hnext)
  rcases pushConstant_eq_ok hnext with ⟨hnone, rfl⟩ | ⟨data, encoding, hdata, hencoding, rfl⟩
  · exact ⟨again, pushConstant_of_none hfound (hstored.missing hnone), halike⟩
  · obtain ⟨dataOther, encodingOther, hdataOther, hencodingOther, hname, hbytes⟩ :=
      hstored.present data encoding hdata hencoding
    exact ⟨_, pushConstant_of_some hdataOther hencodingOther, halike.push hlength name hname hbytes⟩

theorem Packed.Alike.foldlM {names : List String} (halike : packed.Alike related again)
    (hstored : ∀ name ∈ names, StoredAlike related graph storage other storageOther name)
    (hnext : names.foldlM (Packed.pushConstant graph storage) packed = .ok next) :
    ∃ nextAgain, names.foldlM (Packed.pushConstant other storageOther) again = .ok nextAgain ∧
      next.Alike related nextAgain := by
  induction names generalizing packed again with
  | nil =>
    obtain rfl := Except.ok.inj hnext
    exact ⟨again, rfl, halike⟩
  | cons name rest ih =>
    rw [List.foldlM_cons] at hnext
    obtain ⟨middle, hmiddle, hnext⟩ := Result.bind_eq_ok_iff.mp hnext
    obtain ⟨middleAgain, hmiddleAgain, hmiddleAlike⟩ :=
      halike.pushConstant hlength (hstored name (List.mem_cons_self ..)) hmiddle
    rw [List.foldlM_cons, hmiddleAgain, Result.ok_bind]
    exact ih hmiddleAlike (fun later hlater ↦ hstored later (List.mem_cons_of_mem _ hlater)) hnext

/-- Constants that are stored alike are packed alike. -/
theorem pack_alike (hconstants : other.constants = graph.constants)
    (hstored : ∀ name ∈ graph.constants, StoredAlike related graph storage other storageOther name)
    (hpacked : graph.pack storage = .ok packed) :
    ∃ again, other.pack storageOther = .ok again ∧ packed.Alike related again := by
  have hstart : Packed.Alike related {} {} := ⟨rfl, rfl, .nil⟩
  obtain ⟨again, hagain, halike⟩ := hstart.foldlM hlength hstored hpacked
  refine ⟨again, ?_, halike⟩
  rw [Graph.pack, hconstants]
  exact hagain

end Packing

/-! ### Saving what is packed -/

section Saving

variable {graph other : Graph} {storage storageOther : Option String} {packed again : Packed}
  {files saved : Files} {stem : String}

section Documents

variable (hpacked : graph.pack storage = .ok packed) (hagain : other.pack storageOther = .ok again)
  (hdocument : Document.writeDocument (other.storedRecord again) =
    Document.writeDocument (graph.storedRecord packed))

include hpacked hagain hdocument

/-- Two graphs with one document and the same weights are saved in the same way. -/
theorem save_congr (hblobs : again.blobs = packed.blobs) (files : Files) (stem : String) :
    other.save files stem storageOther = graph.save files stem storage := by
  unfold Graph.storedRecord at hdocument
  unfold Graph.save
  rw [hpacked, hagain]
  dsimp only
  rw [hdocument, hblobs]

/-- Two graphs with one document and weights are saved in the same way, the weights apart. -/
theorem save_congr_document (hblobs : again.blobs.length = packed.blobs.length) (files : Files)
    (stem : String) :
    (other.save files stem storageOther).2 = (graph.save files stem storage).2 ∧
      ∀ name, (Files.pathAt stem ".weights" >>= Files.nameOf) ≠ .ok name →
        (other.save files stem storageOther).1.find? name =
          (graph.save files stem storage).1.find? name := by
  have hempty : again.blobs.isEmpty = packed.blobs.isEmpty := by
    rw [Bool.eq_iff_iff, List.isEmpty_iff_length_eq_zero, List.isEmpty_iff_length_eq_zero, hblobs]
  unfold Graph.storedRecord at hdocument
  unfold Graph.save
  rw [hpacked, hagain]
  dsimp only
  rw [hdocument, hempty]
  cases Files.pathAt stem ".json" >>= Files.nameOf with
  | error err => exact ⟨rfl, fun _ _ ↦ rfl⟩
  | ok document =>
    dsimp only
    generalize Document.writeDocument _ = written
    cases written.stopped with
    | some rule => exact ⟨rfl, fun _ _ ↦ rfl⟩
    | none =>
      dsimp only
      split_ifs
      · exact ⟨rfl, fun _ _ ↦ rfl⟩
      · cases hweights : Files.pathAt stem ".weights" >>= Files.nameOf with
        | error err => exact ⟨rfl, fun _ _ ↦ rfl⟩
        | ok weights =>
          refine ⟨rfl, fun name hname ↦ ?_⟩
          have hne : name ≠ weights := fun heq ↦ hname (heq ▸ rfl)
          dsimp only
          rw [OrderedMap.find?_insert_of_ne _ hne, OrderedMap.find?_insert_of_ne _ hne]

end Documents

/-- A graph that is saved once more in the same place changes nothing there. -/
theorem save_saved (hsaved : graph.save files stem storage = (saved, .ok ())) :
    graph.save saved stem storage = (saved, .ok ()) := by
  obtain ⟨packed, document, hpacked, hdocument, hstopped, hfiles⟩ := save_eq_ok hsaved
  unfold Graph.save
  rw [hpacked, hdocument]
  dsimp only
  rw [← Graph.storedRecord, hstopped, ← Graph.document]
  dsimp only
  rcases hfiles with ⟨hblobs, rfl⟩ | ⟨weights, hblobs, hweights, rfl⟩
  · rw [hblobs, OrderedMap.insert_of_find? (OrderedMap.find?_insert_self ..)]
    rfl
  · have hfound : ((files.insert document (graph.document packed)).insert weights
        (.bytes packed.blobs.flatten)).find? document = some (graph.document packed) := by
      rw [OrderedMap.find?_insert_of_ne _ (documentName_ne_weightsName hdocument hweights),
        OrderedMap.find?_insert_self]
    rw [OrderedMap.insert_of_find? hfound, if_neg (by simpa using hblobs), hweights]
    dsimp only
    rw [OrderedMap.insert_of_find? (OrderedMap.find?_insert_self ..)]

end Saving

/-! ### Graphs that are loaded -/

section Restored

variable {graph loaded : Graph} {storage : Option String} {packed again : Packed}

/-- The record of a graph that is loaded is the one its document gives back, with the nodes numbered
by their places. -/
theorem Graph.Restored.recordFields (hrestored : graph.Restored storage loaded)
    (hbuilt : graph.Built) : loaded.recordFields = graph.renumbered.stored.recordFields := by
  have htensors : loaded.tensors.mapValues TensorInfo.toRecord =
      graph.stored.tensors.mapValues TensorInfo.toRecord := by
    refine OrderedMap.eq_of_find?_eq ?_ ?_ fun name _ ↦ ?_
    · rw [OrderedMap.keys_mapValues, OrderedMap.keys_mapValues, hrestored.keys, Graph.stored,
        OrderedMap.keys_mapValues]
    · rw [OrderedMap.keys_mapValues, hrestored.keys]
      exact hbuilt.replayable.nodup
    · rw [OrderedMap.find?_mapValues, hrestored.tensors, Graph.stored, OrderedMap.find?_mapValues,
        OrderedMap.find?_mapValues, Option.map_map, Option.map_map]
      rfl
  have hentries := congrArg OrderedMap.entries htensors
  simp only [OrderedMap.mapValues] at hentries
  rw [Graph.recordFields, Graph.recordFields, hrestored.name, hrestored.nodes, hrestored.inputs,
    hrestored.constants, hrestored.outputs, hentries]
  rfl

/-- The record that a document writes depends on the records of the manifest only. -/
theorem storedRecord_congr (graph : Graph)
    (hrecords : (again.manifest.map fun entry ↦ (entry.name, entry.toRecord)) =
      packed.manifest.map fun entry ↦ (entry.name, entry.toRecord)) :
    graph.storedRecord again = graph.storedRecord packed := by
  rw [Graph.storedRecord, Graph.storedRecord, manifestRecord, manifestRecord, hrecords]

theorem areStorable_iff {items : List Attr} :
    Attr.areStorable items = true ↔ ∀ item ∈ items, item.isStorable = true := by
  induction items with
  | nil => simp [Attr.areStorable]
  | cons item rest ih => rw [Attr.areStorable, Bool.and_eq_true, ih, List.forall_mem_cons]

/-- A smaller number has no more digits. -/
theorem isShortInteger_of_le {small great : Nat} (hle : small ≤ great)
    (hshort : isShortInteger great = true) : isShortInteger small = true := by
  have hlimit : 0 < integerDigitLimit := by decide
  simp only [isShortInteger, Int.natAbs_natCast, decide_eq_true_eq,
    length_decimalDigits_le hlimit] at hshort ⊢
  exact Nat.lt_of_le_of_lt hle hshort

/-- A document that can be written can be written with the nodes numbered by their places, as these
are no greater than the identifiers. -/
theorem isStorable_renumbered (hbuilt : graph.Built)
    (hstorable : (graph.storedRecord packed).isStorable = true) :
    (graph.renumbered.storedRecord packed).isStorable = true := by
  simp only [Graph.storedRecord, Graph.recordFields, List.cons_append, List.nil_append,
    Attr.isStorable, Attr.haveStorable, areStorable_iff, List.forall_mem_map, Bool.and_eq_true,
    Bool.true_and] at hstorable ⊢
  refine ⟨fun numbered hmem ↦ ?_, hstorable.2⟩
  obtain ⟨node, hnode, hless, hsame⟩ :=
    Graph.exists_of_mem_numberedFrom hbuilt.consistent.ids (fun _ _ ↦ Nat.zero_le _) hmem
  have hrecord := hstorable.1 node hnode
  rw [hsame]
  simp only [Node.toRecord, Attr.isStorable, Attr.haveStorable, Bool.and_eq_true] at hrecord ⊢
  exact ⟨isShortInteger_of_le hless hrecord.1, hrecord.2⟩

/-- The document of a graph that is loaded is written as the one it was loaded from, with the nodes
numbered by their places. -/
theorem Graph.Restored.writeDocument_eq (hrestored : graph.Restored storage loaded)
    (hbuilt : graph.Built)
    (hrecords : (again.manifest.map fun entry ↦ (entry.name, entry.toRecord)) =
      packed.manifest.map fun entry ↦ (entry.name, entry.toRecord))
    (hstopped : (Document.writeDocument (graph.storedRecord packed)).stopped = none) :
    Document.writeDocument (loaded.storedRecord again) =
      Document.writeDocument (graph.renumbered.storedRecord packed) := by
  have hrecord : loaded.storedRecord packed = (graph.renumbered.storedRecord packed).stored := by
    rw [Graph.storedRecord, Graph.storedRecord, Graph.recordFields_stored,
      hrestored.recordFields hbuilt, Attr.storedFields, Attr.storedFields, stored_manifestRecord]
  have hstorable := isStorable_renumbered hbuilt (Document.isStorable_of_stopped _ 0 hstopped)
  rw [storedRecord_congr loaded hrecords, hrecord]
  exact Document.writeValue_stored _ 0 hstorable

/-- A constant of a graph that is loaded is stored alike, if its data is after it was read back. -/
theorem Graph.Restored.storedAlike (hrestored : graph.Restored storage loaded) {name : String}
    (hname : name ∈ graph.constants) {related : List UInt8 → List UInt8 → Prop}
    (hrelated : ∀ data encoding, graph.data? name = some data →
      storageEncoding data.encoding storage = .ok encoding →
        related (data.tensor.encoded encoding) ((encoding.restored data.tensor).encoded encoding)) :
    StoredAlike related graph storage loaded storage name where
  registered hfound := by
    rwa [hrestored.tensors, Option.isSome_map]
  missing hnone := by
    rw [hrestored.data?_eq, hnone, Option.map_none, ite_self]
  present data encoding hdata hencoding := by
    obtain ⟨htype, -⟩ := Encoding.restored_fields
      (Encoding.isNumber_of_storageEncoding hencoding) data.tensor
    refine ⟨data.refilled (encoding.restored data.tensor), encoding, ?_, ?_, rfl,
      hrelated data encoding hdata hencoding⟩
    · rw [hrestored.data?_eq, if_pos hname, hdata, Option.map_some, data.restored_eq hencoding]
    · rwa [Strided.encoding_refilled htype]

/-- A graph that is loaded has the files of a graph with the record of the one that was saved, its
nodes numbered by their places, if its constants are stored as the same bytes. -/
theorem Graph.Restored.save_of_storedAlike (hrestored : graph.Restored storage loaded)
    (hbuilt : graph.Built) (target : Graph) {first : Graph} {storageFirst : Option String}
    (hconstants : first.constants = graph.constants)
    (hstored : ∀ name ∈ graph.constants, StoredAlike Eq first storageFirst loaded storage name)
    (hpacked : first.pack storageFirst = .ok packed)
    (htarget : target.pack storageFirst = .ok packed)
    (hfields : target.recordFields = graph.renumbered.recordFields)
    (hstopped : (Document.writeDocument (graph.storedRecord packed)).stopped = none)
    (files : Files) (stem : String) :
    loaded.save files stem storage = target.save files stem storageFirst := by
  have hlength (first second : List UInt8) (hsame : first = second) : SameLength first second :=
    congrArg List.length hsame.symm
  rw [← hconstants] at hstored
  obtain ⟨again, hagain, halike⟩ :=
    pack_alike hlength (hrestored.constants.trans hconstants.symm) hstored hpacked
  have hblobs : packed.blobs = again.blobs := List.forall₂_eq_eq_eq ▸ halike.blobs
  have hdocument := hrestored.writeDocument_eq hbuilt halike.records hstopped
  rw [Graph.storedRecord.eq_def graph.renumbered, ← hfields] at hdocument
  exact save_congr htarget hagain hdocument hblobs.symm files stem

end Restored

/-! ### The lowest byte first -/

/-- Data with the lowest byte of each element first. -/
def Strided.lowestFirst (data : Strided) : Strided := { data with highestFirst := false }

/-- What is known of a tensor, with the lowest byte of each element of its data first. -/
def TensorInfo.lowestFirst (info : TensorInfo) : TensorInfo :=
  { info with buffer := info.buffer.map Strided.lowestFirst }

/-- The graph with the lowest byte of each element of its constants first, but with the names of
their types as they are. -/
def Graph.lowestFirst (graph : Graph) : Graph :=
  { graph with tensors := graph.tensors.mapValues TensorInfo.lowestFirst }

theorem Graph.data?_lowestFirst (graph : Graph) (name : String) :
    graph.lowestFirst.data? name = (graph.data? name).map Strided.lowestFirst := by
  unfold Graph.data? Graph.lowestFirst
  rw [OrderedMap.find?_mapValues]
  cases graph.tensors.find? name <;> rfl

theorem Graph.recordFields_lowestFirst (graph : Graph) :
    graph.lowestFirst.recordFields = graph.recordFields := by
  simp [Graph.recordFields, Graph.lowestFirst, OrderedMap.mapValues, TensorInfo.toRecord,
    TensorInfo.lowestFirst]

/-! ### The files of a graph that is loaded -/

section Files

variable {graph loaded : Graph} {storage : Option String} {files saved : Files} {stem : String}

/-- Whether the constants of a graph are stored with the lowest byte of each element first. -/
def Graph.StoresLowestFirst (graph : Graph) (storage : Option String) : Prop :=
  ∀ name ∈ graph.constants, ∀ data, graph.data? name = some data →
    ∀ encoding, storageEncoding data.encoding storage = .ok encoding →
      encoding.highestFirst = false

/-- Whether the constants of a graph are stored in their own types, whichever byte comes first. -/
def Graph.StoresOwnTypes (graph : Graph) (storage : Option String) : Prop :=
  ∀ name ∈ graph.constants, ∀ data, graph.data? name = some data →
    ∃ encoding, storageEncoding data.encoding storage = .ok encoding ∧
      encoding.kind = .element data.tensor.elementType

/-- Constants that are stored in their own types take as many bytes with the lowest of each element
first. -/
theorem Graph.StoresOwnTypes.lowestFirst (howns : graph.StoresOwnTypes storage) {name : String}
    (hname : name ∈ graph.constants) :
    StoredAlike SameLength graph storage graph.lowestFirst none name where
  registered hfound := by
    rwa [Graph.lowestFirst, OrderedMap.find?_mapValues, Option.isSome_map]
  missing hnone := by
    rw [graph.data?_lowestFirst, hnone, Option.map_none]
  present data encoding hdata hencoding := by
    obtain ⟨own, hown, hkind⟩ := howns name hname data hdata
    obtain rfl : own = encoding := Except.ok.inj (hown.symm.trans hencoding)
    refine ⟨data.lowestFirst, _, ?_, rfl, (Encoding.name_of_kind hkind).symm, ?_⟩
    · rw [graph.data?_lowestFirst, hdata, Option.map_some]
    · rw [SameLength, length_encoded rfl,
        length_encoded (Encoding.isNumber_of_storageEncoding hencoding), hkind]
      rfl

/-- Constants that were stored in their own types are stored the second time as with the lowest byte
of each element first. -/
theorem Graph.Restored.lowestFirst (hrestored : graph.Restored storage loaded)
    (howns : graph.StoresOwnTypes storage) {name : String} (hname : name ∈ graph.constants) :
    StoredAlike Eq graph.lowestFirst none loaded storage name where
  registered hfound := by
    rwa [Graph.lowestFirst, OrderedMap.find?_mapValues, Option.isSome_map,
      ← Option.isSome_map, ← hrestored.tensors] at hfound
  missing hnone := by
    rw [graph.data?_lowestFirst, Option.map_eq_none_iff] at hnone
    rw [hrestored.data?_eq, hnone, Option.map_none, ite_self]
  present lowest encoding hlowest hencoding := by
    rw [graph.data?_lowestFirst, Option.map_eq_some_iff] at hlowest
    obtain ⟨data, hdata, rfl⟩ := hlowest
    obtain rfl : data.lowestFirst.encoding = encoding := Except.ok.inj hencoding
    obtain ⟨own, hown, hkind⟩ := howns name hname data hdata
    obtain ⟨htype, -⟩ :=
      Encoding.restored_fields (Encoding.isNumber_of_storageEncoding hown) data.tensor
    refine ⟨data.refilled (own.restored data.tensor), own, ?_, ?_, Encoding.name_of_kind hkind,
      (encoded_restored_own hkind).symm⟩
    · rw [hrestored.data?_eq, if_pos hname, hdata, Option.map_some, data.restored_eq hown]
    · rwa [Strided.encoding_refilled htype]

variable (hrestored : graph.Restored storage loaded) (hbuilt : graph.Built)
  (hsaved : graph.save files stem storage = (saved, .ok ()))

include hrestored hbuilt hsaved

/-- The graph that is loaded has the document of the one that was saved, with the nodes numbered by
their places. -/
theorem Graph.Restored.save_document (files : Files) (stem : String) :
    (loaded.save files stem storage).2 = (graph.renumbered.save files stem storage).2 ∧
      ∀ name, (Files.pathAt stem ".weights" >>= Files.nameOf) ≠ .ok name →
        (loaded.save files stem storage).1.find? name =
          (graph.renumbered.save files stem storage).1.find? name := by
  obtain ⟨packed, -, hpacked, -, hstopped, -⟩ := save_eq_ok hsaved
  have hstored (name : String) (hname : name ∈ graph.constants) :
      StoredAlike SameLength graph storage loaded storage name :=
    hrestored.storedAlike hname fun data encoding _ hencoding ↦
      length_encoded_restored (Encoding.isNumber_of_storageEncoding hencoding) data.tensor
  obtain ⟨again, hagain, halike⟩ :=
    pack_alike (fun _ _ hsize ↦ hsize) hrestored.constants hstored hpacked
  have hdocument := hrestored.writeDocument_eq hbuilt halike.records hstopped
  have hrenumbered : graph.renumbered.pack storage = .ok packed := hpacked
  exact save_congr_document hrenumbered hagain hdocument halike.blobs.length_eq.symm files stem

/-- The graph that is loaded has the files of the one that was saved, with the nodes numbered by
their places, if the lowest byte of each stored element comes first. -/
theorem Graph.Restored.save_eq (hlowest : graph.StoresLowestFirst storage)
    (hnumbers : ∀ name ∈ graph.constants, ∀ data, graph.data? name = some data →
      data.tensor.HasNoNaN)
    (files : Files) (stem : String) :
    loaded.save files stem storage = graph.renumbered.save files stem storage := by
  obtain ⟨packed, -, hpacked, -, hstopped, -⟩ := save_eq_ok hsaved
  refine hrestored.save_of_storedAlike hbuilt graph.renumbered rfl (fun name hname ↦ ?_)
    hpacked hpacked rfl hstopped files stem
  refine hrestored.storedAlike hname fun data encoding hdata hencoding ↦ ?_
  have hkind : encoding.kind = .element data.tensor.elementType ∨
      data.tensor.elementType.isReal = true ∧ encoding.isReal = true := by
    rcases Encoding.storageEncoding_eq_ok hencoding with rfl | ⟨hown, hreal, -⟩
    · exact .inl rfl
    · exact .inr ⟨hown, hreal⟩
  exact (encoded_restored hkind (hlowest name hname data hdata encoding hencoding)
    (hnumbers name hname data hdata)).symm

/-- The graph that is loaded has the files of the one that was saved, with the nodes numbered by
their places and the lowest byte of each element first, if constants are stored in their own types.
-/
theorem Graph.Restored.save_lowestFirst (howns : graph.StoresOwnTypes storage) (files : Files)
    (stem : String) :
    loaded.save files stem storage = graph.renumbered.lowestFirst.save files stem none := by
  obtain ⟨packed, -, hpacked, -, hstopped, -⟩ := save_eq_ok hsaved
  have hconstants : graph.lowestFirst.constants = graph.constants := rfl
  obtain ⟨lowest, hlowest, halike⟩ := pack_alike (fun _ _ hsize ↦ hsize) hconstants
    (fun _ ↦ howns.lowestFirst) hpacked
  rw [← storedRecord_congr graph halike.records] at hstopped
  exact hrestored.save_of_storedAlike hbuilt graph.renumbered.lowestFirst hconstants
    (fun _ ↦ hrestored.lowestFirst howns) hlowest hlowest
    graph.renumbered.recordFields_lowestFirst hstopped files stem

end Files

/-- A graph whose identifiers are places is saved as it is with its nodes numbered by their places.
-/
theorem save_renumbered {graph : Graph}
    (hids : graph.nodes.map Node.id = List.range graph.nodes.length) (files : Files) (stem : String)
    (storage : Option String) :
    graph.renumbered.save files stem storage = graph.save files stem storage := by
  have hnodes : graph.renumbered.nodes = graph.nodes := by
    rw [List.range_eq_range'] at hids
    exact Graph.numberedFrom_eq_self_iff.mpr hids
  have hfields : graph.renumbered.recordFields = graph.recordFields := by
    rw [Graph.recordFields, hnodes]
    rfl
  unfold Graph.save
  rw [hfields]
  rfl

/-- A graph that is saved and loaded is saved again, in the same place or in another, as it is with
its nodes numbered by their places: all files are the same if the lowest byte of each stored element
comes first, so that digits are lost at most once. If constants are stored in their own types, the
second time they are stored with the lowest byte of each element first, whichever came first before.
In every case the document is the same. With identifiers that are places a graph is so numbered as
it is. Assumes: a record that can be read back, weights within the limits of tensors, whose file can
be reached, and no element that is a not-a-number. -/
theorem save_load_save {graph : Graph} {storage : Option String} {files saved : Files}
    {stem : String} (hbuilt : graph.Built) (hlegible : graph.toRecord.isLegible 0 = true)
    (hfits : graph.FitsIn storage)
    (hreached : (Files.pathAt stem ".weights" >>= Files.nameOf).Returns)
    (hnumbers : ∀ name ∈ graph.constants, ∀ data, graph.data? name = some data →
      data.tensor.HasNoNaN)
    (hsaved : graph.save files stem storage = (saved, .ok ())) :
    ∃ loaded, Graph.load saved stem = .ok loaded ∧
      (graph.StoresLowestFirst storage → ∀ files stem,
        loaded.save files stem storage = graph.renumbered.save files stem storage) ∧
      (graph.StoresOwnTypes storage → ∀ files stem,
        loaded.save files stem storage = graph.renumbered.lowestFirst.save files stem none) ∧
      (∀ files stem,
        (loaded.save files stem storage).2 = (graph.renumbered.save files stem storage).2 ∧
          ∀ name, (Files.pathAt stem ".weights" >>= Files.nameOf) ≠ .ok name →
            (loaded.save files stem storage).1.find? name =
              (graph.renumbered.save files stem storage).1.find? name) ∧
      (graph.nodes.map Node.id = List.range graph.nodes.length →
        (∀ files stem storage,
          graph.renumbered.save files stem storage = graph.save files stem storage) ∧
        (graph.StoresLowestFirst storage →
          loaded.save saved stem storage = (saved, .ok ()))) := by
  obtain ⟨loaded, hloaded, hrestored⟩ := load_save_in hbuilt hlegible hfits hreached hsaved
  refine ⟨loaded, hloaded, fun hlowest ↦ hrestored.save_eq hbuilt hsaved hlowest hnumbers,
    hrestored.save_lowestFirst hbuilt hsaved, hrestored.save_document hbuilt hsaved,
    fun hids ↦ ⟨save_renumbered hids, fun hlowest ↦ ?_⟩⟩
  rw [hrestored.save_eq hbuilt hsaved hlowest hnumbers, save_renumbered hids]
  exact save_saved hsaved

/-- Weights that lost digits when they were stored in half the bytes lose none the second time. -/
theorem save_load_save_weighed :
    ∃ loaded, Graph.load (weighed.save {} "g" (some "float16")).1 "g" = .ok loaded ∧
      loaded.save (weighed.save {} "g" (some "float16")).1 "g" (some "float16") =
        ((weighed.save {} "g" (some "float16")).1, .ok ()) := by
  have hfits : weighed.FitsIn (some "float16") :=
    Graph.fitsIn_of_toOption (by decide +kernel) (by decide +kernel) (by decide +kernel)
  have hnumbers : ∀ name ∈ weighed.constants, ∀ data ∈ weighed.data? name,
      data.tensor.HasNoNaN := by
    decide +kernel
  have hlowest : ∀ name ∈ weighed.constants, ∀ data ∈ weighed.data? name,
      ∀ encoding ∈ (storageEncoding data.encoding (some "float16")).toOption,
        encoding.highestFirst = false := by
    decide +kernel
  have hsaved : (weighed.save {} "g" (some "float16")).2 = .ok () :=
    Result.eq_ok_of_toOption_eq_some (by decide +kernel)
  obtain ⟨loaded, hloaded, -, -, -, hsame⟩ := save_load_save weighed_built (by decide +kernel) hfits
    (Result.returns_of_isSome (by decide +kernel)) hnumbers (Prod.ext rfl hsaved)
  exact ⟨loaded, hloaded, (hsame (by decide +kernel)).2 fun name hname data hdata encoding
    hencoding ↦ hlowest name hname data hdata encoding (congrArg Except.toOption hencoding)⟩

/-- With a storage type whose highest byte comes first, a graph without a not-a-number is saved,
loaded and saved again in the same place, and the bytes of its floating-point weights are turned
round. -/
theorem bytes_turned_back :
    weighed.Built ∧
      (∀ name ∈ weighed.constants, ∀ data ∈ weighed.data? name, data.tensor.HasNoNaN) ∧
      (weighed.save {} "g" (some ">f4")).2 = .ok () ∧
      ((weighed.save {} "g" (some ">f4")).1.find? "g.weights").map Content.toBytes =
        some [63, 128, 0, 0, 61, 204, 204, 205, 0, 0, 0, 0, 0, 0, 0, 0,
          1, 0, 0, 0, 0, 0, 0, 0] ∧
      ∃ loaded, Graph.load (weighed.save {} "g" (some ">f4")).1 "g" = .ok loaded ∧
        ((loaded.save (weighed.save {} "g" (some ">f4")).1 "g" (some ">f4")).1.find?
          "g.weights").map Content.toBytes =
            some [0, 0, 128, 63, 205, 204, 204, 61, 0, 0, 0, 0, 0, 0, 0, 0,
              1, 0, 0, 0, 0, 0, 0, 0] := by
  have hfits : weighed.FitsIn (some ">f4") :=
    Graph.fitsIn_of_toOption (by decide +kernel) (by decide +kernel) (by decide +kernel)
  have howns : ∀ name ∈ weighed.constants, ∀ data ∈ weighed.data? name,
      ∃ encoding ∈ (storageEncoding data.encoding (some ">f4")).toOption,
        encoding.kind = .element data.tensor.elementType := by
    decide +kernel
  have hsaved : (weighed.save {} "g" (some ">f4")).2 = .ok () :=
    Result.eq_ok_of_toOption_eq_some (by decide +kernel)
  obtain ⟨loaded, hloaded, hrestored⟩ := load_save_in weighed_built (by decide +kernel) hfits
    (Result.returns_of_isSome (by decide +kernel)) (Prod.ext rfl hsaved)
  refine ⟨weighed_built, by decide +kernel, hsaved, by decide +kernel, loaded, hloaded, ?_⟩
  rw [hrestored.save_lowestFirst weighed_built (Prod.ext rfl hsaved)
    fun name hname data hdata ↦ ?_]
  · decide +kernel
  · obtain ⟨encoding, hencoding, hkind⟩ := howns name hname data hdata
    exact ⟨encoding, Result.eq_ok_of_toOption_eq_some hencoding, hkind⟩

end Handover
