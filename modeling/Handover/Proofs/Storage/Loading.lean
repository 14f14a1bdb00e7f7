import Handover.Proofs.Graph.Recording
import Handover.Proofs.Storage.Directory
import Handover.Proofs.Storage.Weights

/-!
# Graphs that are saved and loaded

A graph that is saved is loaded with the same nodes, numbered by their places, and the same tensors
and roles, and with the data of its constants, brought to the storage type and back
(`load_save_in`). Attributes and shapes come back as a document gives them back.
-/

set_option autoImplicit false
set_option relaxedAutoImplicit false

namespace Handover

/-! ### Weights -/

section Weights

theorem loadEntry_unregistered {graph : Graph} {entry : String × Attr}
    (hfound : graph.tensors.find? entry.1 = none) (bytes : List UInt8) :
    graph.loadEntry bytes entry = .ok graph := by
  rw [Graph.loadEntry, hfound]

theorem loadEntry_registered {graph : Graph} {entry : String × Attr} {info : TensorInfo}
    {bytes : List UInt8} {loaded : Strided} (hfound : graph.tensors.find? entry.1 = some info)
    (hloaded : loadWeight info entry.2 bytes = .ok loaded) :
    graph.loadEntry bytes entry = .ok { graph with
      tensors := graph.tensors.insert entry.1 { info with buffer := some loaded } } := by
  rw [Graph.loadEntry, hfound]
  show (loadWeight info entry.2 bytes >>= _) = _
  rw [hloaded]
  rfl

/-- What loading weights does to the tensors of a graph, when every entry that names a tensor can be
loaded. -/
theorem foldlM_loadEntry {bytes : List UInt8} (data : String → Option Strided)
    {entries : List (String × Attr)} (hnodup : (entries.map Prod.fst).Nodup) (graph : Graph)
    (hload : ∀ entry ∈ entries, ∀ info, graph.tensors.find? entry.1 = some info →
      ∃ loaded, loadWeight info entry.2 bytes = .ok loaded ∧ data entry.1 = some loaded) :
    ∃ tensors, entries.foldlM (Graph.loadEntry bytes) graph = .ok { graph with tensors } ∧
      tensors.keys = graph.tensors.keys ∧
      ∀ name, tensors.find? name = (graph.tensors.find? name).map fun info ↦
        if name ∈ entries.map Prod.fst then { info with buffer := data name } else info := by
  induction entries generalizing graph with
  | nil => exact ⟨graph.tensors, by simp [pure, Except.pure], rfl, by simp⟩
  | cons entry rest ih =>
    obtain ⟨hhead, hrest⟩ := List.nodup_cons.mp hnodup
    have hothers : ∀ other ∈ rest, other.1 ≠ entry.1 := fun other hother heq ↦
      hhead (heq ▸ List.mem_map_of_mem hother)
    rw [List.foldlM_cons]
    cases hfound : graph.tensors.find? entry.1 with
    | none =>
      obtain ⟨tensors, htensors, hkeys, hfind⟩ := ih hrest graph fun other hother ↦
        hload other (List.mem_cons_of_mem _ hother)
      refine ⟨tensors, by rw [loadEntry_unregistered hfound]; exact htensors, hkeys, fun name ↦ ?_⟩
      rw [hfind]
      by_cases hname : name = entry.1
      · rw [hname, hfound]
        rfl
      · simp only [List.map_cons, List.mem_cons, hname, false_or]
    | some info =>
      obtain ⟨loaded, hloaded, hdata⟩ := hload entry (List.mem_cons_self ..) info hfound
      obtain ⟨tensors, htensors, hkeys, hfind⟩ := ih hrest
        { graph with tensors := graph.tensors.insert entry.1 { info with buffer := some loaded } }
        fun other hother info hinfo ↦ by
          rw [OrderedMap.find?_insert_of_ne _ (hothers other hother)] at hinfo
          exact hload other (List.mem_cons_of_mem _ hother) info hinfo
      refine ⟨tensors, by rw [loadEntry_registered hfound hloaded]; exact htensors, ?_,
        fun name ↦ ?_⟩
      · rw [hkeys, OrderedMap.keys_insert, if_pos]
        rw [OrderedMap.contains_eq_isSome, hfound]
        rfl
      · rw [hfind]
        by_cases hname : name = entry.1
        · subst hname
          rw [OrderedMap.find?_insert_self, hfound, hdata]
          simp [hhead]
        · rw [OrderedMap.find?_insert_of_ne _ hname]
          simp only [List.map_cons, List.mem_cons, hname, false_or]

end Weights

/-! ### The manifest -/

section Manifest

variable {manifest : List ManifestEntry}

/-- An entry of a manifest as a field of its record. -/
theorem exists_of_mem_manifestRecord {field : String × Attr}
    (hfield : field ∈ (OrderedMap.ofList (manifest.map fun entry ↦
      (entry.name, entry.toRecord))).entries) :
    ∃ entry ∈ manifest, field = (entry.name, entry.toRecord) := by
  obtain ⟨entry, hentry, rfl⟩ := List.mem_map.mp (OrderedMap.mem_of_mem_entries_ofList hfield)
  exact ⟨entry, hentry, rfl⟩

theorem stored_manifestRecord (manifest : List ManifestEntry) :
    (manifestRecord manifest).stored = manifestRecord manifest := by
  rw [manifestRecord, Attr.stored, Attr.storedFields_eq_map]
  congr 1
  refine (List.map_congr_left fun field hfield ↦ ?_).trans (List.map_id _)
  obtain ⟨entry, -, rfl⟩ := exists_of_mem_manifestRecord hfield
  rfl

theorem mem_keys_manifestRecord (manifest : List ManifestEntry) {name : String} :
    name ∈ (OrderedMap.ofList (manifest.map fun entry ↦
      (entry.name, entry.toRecord))).entries.map Prod.fst ↔
      name ∈ manifest.map ManifestEntry.name := by
  refine OrderedMap.mem_keys_ofList.trans ?_
  rw [List.map_map]
  rfl

theorem isTrue_manifestRecord (hmanifest : manifest ≠ []) :
    (manifestRecord manifest).isTrue = true := by
  obtain ⟨first, rest, rfl⟩ := List.exists_cons_of_ne_nil hmanifest
  have hfirst := (mem_keys_manifestRecord (first :: rest)).mpr (List.mem_cons_self ..)
  simp only [manifestRecord, Attr.isTrue, Bool.not_eq_true', List.isEmpty_eq_false_iff]
  intro hnone
  rw [hnone] at hfirst
  cases hfirst

theorem length_digits_of_le {number : Nat} (hnumber : number ≤ Shape.byteLimit) :
    (decimalDigits number).length ≤ integerDigitLimit := by
  have hlimit : Shape.byteLimit = 2 ^ 63 - 1 := rfl
  exact ((length_decimalDigits_le (by decide)).mpr (by omega : number < 10 ^ 20)).trans (by decide)

theorem isLegible_manifestRecord
    (hlimit : ∀ entry ∈ manifest, entry.offset ≤ Shape.byteLimit ∧ entry.size ≤ Shape.byteLimit) :
    (manifestRecord manifest).isLegible 1 = true := by
  simp only [manifestRecord, Attr.isLegible, Bool.and_eq_true, decide_eq_true_eq,
    Attr.haveLegible_iff]
  refine ⟨⟨by decide, OrderedMap.nodup_keys_ofList _⟩, fun field hfield ↦ ?_⟩
  obtain ⟨entry, hentry, rfl⟩ := exists_of_mem_manifestRecord hfield
  obtain ⟨hoffset, hsize⟩ := hlimit entry hentry
  simp [ManifestEntry.toRecord, Attr.isLegible, Attr.haveLegible, Document.nestingLimit,
    length_digits_of_le hoffset, length_digits_of_le hsize]

end Manifest

/-! ### Saving -/

section Saving

variable {graph : Graph} {files saved : Files} {stem : String}

/-- The record that the document of a graph writes. -/
def Graph.storedRecord (graph : Graph) (packed : Packed) : Attr :=
  .record (graph.recordFields ++ [("weights", manifestRecord packed.manifest)])

/-- The text of the document of a graph. -/
def Graph.document (graph : Graph) (packed : Packed) : Content :=
  .text (String.ofList (Document.writeDocument (graph.storedRecord packed)).text)

/-- What a graph that is saved leaves in the files. -/
theorem save_eq_ok {storage : Option String}
    (hsaved : graph.save files stem storage = (saved, .ok ())) :
    ∃ packed document, graph.pack storage = .ok packed ∧
      (Files.pathAt stem ".json" >>= Files.nameOf) = .ok document ∧
      (Document.writeDocument (graph.storedRecord packed)).stopped = none ∧
      ((packed.blobs = [] ∧ saved = files.insert document (graph.document packed)) ∨
        ∃ weights, packed.blobs ≠ [] ∧
          (Files.pathAt stem ".weights" >>= Files.nameOf) = .ok weights ∧
          saved = (files.insert document (graph.document packed)).insert weights
            (.bytes packed.blobs.flatten)) := by
  unfold Graph.save at hsaved
  split at hsaved
  · cases hsaved
  case h_2 packed hpacked =>
    split at hsaved
    · cases hsaved
    case h_2 document hdocument =>
      dsimp only at hsaved
      split at hsaved
      · cases hsaved
      case h_2 hstopped =>
        refine ⟨packed, document, hpacked, hdocument, hstopped, ?_⟩
        split_ifs at hsaved with hblobs
        · exact .inl ⟨List.isEmpty_iff.mp hblobs, (Prod.mk.inj hsaved).1.symm⟩
        · split at hsaved
          · cases hsaved
          case h_2 weights hweights =>
            exact .inr ⟨weights, by simpa using hblobs, hweights, (Prod.mk.inj hsaved).1.symm⟩

end Saving

/-! ### Loading -/

section Loading

/-- The graph that is loaded after a graph is saved: nodes are numbered by their places, attributes
and shapes are as a document gives them back, and only constants have data, which was brought to the
storage type and back. -/
structure Graph.Restored (graph : Graph) (storage : Option String) (loaded : Graph) : Prop where
  name : loaded.name = graph.name
  nodes : loaded.nodes = graph.renumbered.nodes.map Node.stored
  inputs : loaded.inputs = graph.inputs
  outputs : loaded.outputs = graph.outputs
  constants : loaded.constants = graph.constants
  keys : loaded.tensors.keys = graph.tensors.keys
  tensors : ∀ name, loaded.tensors.find? name = (graph.tensors.find? name).map fun info ↦
    { info.stored with
      buffer :=
        if name ∈ graph.constants then info.buffer.map (Strided.restored storage) else none }

/-- Whether the data of the constants of a graph keeps to the limits of tensors, each by itself and
all together. -/
def Graph.Fits (graph : Graph) : Prop :=
  (∀ name ∈ graph.constants, ∀ data, graph.data? name = some data → data.tensor.Fits) ∧
    ∀ packed, graph.pack none = .ok packed → packed.length ≤ Shape.byteLimit

/-- Whether the data of the constants of a graph keeps to the limits of tensors, in its own type and
in the one it is stored in, each by itself and all together. -/
structure Graph.FitsIn (graph : Graph) (storage : Option String) : Prop where
  data : ∀ name ∈ graph.constants, ∀ data, graph.data? name = some data → data.tensor.Fits
  stored : ∀ name ∈ graph.constants, ∀ data, graph.data? name = some data →
    ∀ encoding, storageEncoding data.encoding storage = .ok encoding →
      Shape.fits encoding.kind.byteCount data.tensor.shape = true
  length : ∀ packed, graph.pack storage = .ok packed → packed.length ≤ Shape.byteLimit

/-- Without a storage type the data is stored in its own. -/
theorem Graph.Fits.fitsIn {graph : Graph} (hfits : graph.Fits) : graph.FitsIn none where
  data := hfits.1
  stored name hname data hdata encoding hencoding := by
    obtain rfl := Except.ok.inj hencoding
    show Shape.fits (1 * data.tensor.elementType.byteCount) data.tensor.shape = true
    rw [Nat.one_mul]
    exact (hfits.1 name hname data hdata).2
  length := hfits.2

theorem Graph.fits_of_toOption {graph : Graph}
    (hdata : ∀ name ∈ graph.constants, ∀ data ∈ graph.data? name, data.tensor.Fits)
    (hlength : ∀ packed ∈ (graph.pack none).toOption, packed.length ≤ Shape.byteLimit) :
    graph.Fits :=
  ⟨hdata, fun packed hpacked ↦ hlength packed (congrArg Except.toOption hpacked)⟩

theorem Graph.fitsIn_of_toOption {graph : Graph} {storage : Option String}
    (hdata : ∀ name ∈ graph.constants, ∀ data ∈ graph.data? name, data.tensor.Fits)
    (hstored : ∀ name ∈ graph.constants, ∀ data ∈ graph.data? name,
      ∀ encoding ∈ (storageEncoding data.encoding storage).toOption,
        Shape.fits encoding.kind.byteCount data.tensor.shape = true)
    (hlength : ∀ packed ∈ (graph.pack storage).toOption, packed.length ≤ Shape.byteLimit) :
    graph.FitsIn storage where
  data := hdata
  stored name hname data hfound encoding hencoding :=
    hstored name hname data hfound encoding (congrArg Except.toOption hencoding)
  length packed hpacked := hlength packed (congrArg Except.toOption hpacked)

variable {graph : Graph} {storage : Option String} {files saved : Files} {stem : String}
  {packed : Packed}

/-- An entry of a manifest lies inside the weights. -/
theorem Packed.Holds.le_length {names : List String}
    (hholds : packed.Holds graph storage names) {entry : ManifestEntry}
    (hentry : entry ∈ packed.manifest) : entry.offset + entry.size ≤ packed.length := by
  obtain ⟨data, encoding, before, after, -, -, -, hplace, hbytes⟩ := hholds.placed entry hentry
  rw [hholds.length, hbytes, hplace]
  simp

theorem isLegible_storedRecord (hlegible : graph.toRecord.isLegible 0 = true)
    (hholds : packed.Holds graph storage graph.constants)
    (hlimit : packed.length ≤ Shape.byteLimit) :
    (graph.storedRecord packed).isLegible 0 = true := by
  have hmanifest : (manifestRecord packed.manifest).isLegible 1 = true := by
    refine isLegible_manifestRecord fun entry hentry ↦ ?_
    have := hholds.le_length hentry
    omega
  simp only [Graph.toRecord, Graph.storedRecord, Attr.isLegible, Bool.and_eq_true,
    decide_eq_true_eq, Attr.haveLegible_iff] at hlegible ⊢
  refine ⟨⟨hlegible.1.1, by simp [Graph.recordFields]⟩, fun field hfield ↦ ?_⟩
  rcases List.mem_append.mp hfield with hfield | hfield
  · exact hlegible.2 field hfield
  · rw [List.mem_singleton.mp hfield]
    exact hmanifest

/-- What a document that is saved is read as. -/
theorem readStored_document (hlegible : (graph.storedRecord packed).isLegible 0 = true)
    (hstopped : (Document.writeDocument (graph.storedRecord packed)).stopped = none) :
    readStored (graph.document packed) = .ok (graph.storedRecord packed).stored := by
  rw [readStored, Graph.document, Content.toText?]
  dsimp only
  rw [Document.readDocument_writeDocument hstopped hlegible]

/-- What is loaded from a document and its weights. -/
theorem load_eq {document weights : String} {content : Content} {record manifest : Attr}
    {fields : OrderedMap String Attr} {rebuilt : Graph}
    (hdocument : (Files.pathAt stem ".json" >>= Files.nameOf) = .ok document)
    (hweights : (Files.pathAt stem ".weights" >>= Files.nameOf) = .ok weights)
    (hfound : saved.find? document = some content) (hread : readStored content = .ok record)
    (hrecord : Graph.ofRecord record = .ok rebuilt) (hfields : record.fields = .ok fields)
    (hmanifest : fields.find? "weights" = some manifest) :
    Graph.load saved stem =
      match saved.find? weights with
      | none => .ok rebuilt
      | some stored =>
        if manifest.isTrue then do
          (← manifest.fields).entries.foldlM (Graph.loadEntry stored.toBytes) rebuilt
        else .ok rebuilt := by
  obtain ⟨documentPath, hdocumentPath, hdocument⟩ := Result.bind_eq_ok_iff.mp hdocument
  obtain ⟨weightsPath, hweightsPath, hweights⟩ := Result.bind_eq_ok_iff.mp hweights
  have hcontent : saved.read document = .ok content := by rw [Files.read, hfound]
  unfold Graph.load
  rw [hdocumentPath, Result.ok_bind, hdocument, Result.ok_bind, hcontent, Result.ok_bind, hread,
    Result.ok_bind, hrecord, Result.ok_bind, hweightsPath, Result.ok_bind, hweights, Result.ok_bind,
    hfields, Result.ok_bind, hmanifest]
  rfl

/-- A weight of a manifest is loaded as the data that was packed, brought to the storage type and
back. -/
theorem exists_loadWeight (hbuilt : graph.Built) (hfits : graph.FitsIn storage)
    (hpacked : graph.pack storage = .ok packed) {entry : ManifestEntry}
    (hentry : entry ∈ packed.manifest) {info : TensorInfo}
    (hinfo : (graph.tensors.find? entry.name).map TensorInfo.stored = some info) :
    ∃ loaded, loadWeight info entry.toRecord packed.blobs.flatten = .ok loaded ∧
      (graph.data? entry.name).map (Strided.restored storage) = some loaded := by
  have hholds := holds_of_pack hpacked
  obtain ⟨data, encoding, before, after, hname, hdata, hencoding, hplace, hbytes⟩ :=
    hholds.placed entry hentry
  obtain ⟨original, hfound, rfl⟩ := Option.map_eq_some_iff.mp hinfo
  have hbuffer : original.buffer = some data := by
    rwa [Graph.data?, hfound, Option.bind_some] at hdata
  obtain ⟨hshape, htype⟩ := hbuilt.registered.measured _ (OrderedMap.mem_entries_of_find? hfound)
    data hbuffer
  have hlimit : before.length ≤ Shape.byteLimit := by
    have hoffset : entry.offset = before.length := by rw [hplace]
    have := hholds.le_length hentry
    have := hfits.length packed hpacked
    omega
  have hextended (hkind : encoding.kind = .extended) : data.tensor.elementType.isReal = true := by
    rcases Encoding.storageEncoding_eq_ok hencoding with rfl | ⟨hreal, -⟩
    · cases hkind
    · exact hreal
  refine ⟨data.refilled (encoding.restored data.tensor), ?_, ?_⟩
  · rw [hplace, hbytes]
    refine loadWeight_encoded (Encoding.isNumber_of_storageEncoding hencoding) hextended
      (hfits.data _ hname data hdata) (hfits.stored _ hname data hdata _ hencoding) ?_ htype hlimit
    show Attr.storedItems original.shape = _
    rw [hshape, Attr.storedItems_eq_map, List.map_map]
    rfl
  · rw [hdata, Option.map_some, data.restored_eq hencoding]

/-- What is known of a tensor that is loaded. -/
theorem restored_of_find? (hholds : packed.Holds graph storage graph.constants) (name : String) :
    ((graph.tensors.find? name).map TensorInfo.stored).map (fun info ↦
      if name ∈ packed.manifest.map ManifestEntry.name then
        { info with buffer := (graph.data? name).map (Strided.restored storage) }
      else info) =
      (graph.tensors.find? name).map fun info ↦ { info.stored with
        buffer := if name ∈ graph.constants then info.buffer.map (Strided.restored storage)
          else none } := by
  cases hfound : graph.tensors.find? name with
  | none => rfl
  | some info =>
    have hdata : graph.data? name = info.buffer := by
      rw [Graph.data?, hfound, Option.bind_some]
    simp only [Option.map_some, hdata]
    congr 1
    split_ifs with hentry hconstant hconstant
    · rfl
    · obtain ⟨entry, hmem, rfl⟩ := List.mem_map.mp hentry
      obtain ⟨_, _, _, _, hname, -⟩ := hholds.placed entry hmem
      exact absurd hname hconstant
    · cases hbuffer : info.buffer with
      | none => rfl
      | some data => exact absurd (hholds.complete hconstant (hdata.trans hbuffer)) hentry
    · rfl

/-- The weights of a manifest are loaded into a graph that is read from its record. -/
theorem foldlM_loadEntry_manifest (hbuilt : graph.Built) (hfits : graph.FitsIn storage)
    (hpacked : graph.pack storage = .ok packed) :
    ∃ tensors, (OrderedMap.ofList (packed.manifest.map fun entry ↦
        (entry.name, entry.toRecord))).entries.foldlM (Graph.loadEntry packed.blobs.flatten)
          graph.stored.renumbered = .ok { graph.stored.renumbered with tensors } ∧
      graph.Restored storage { graph.stored.renumbered with tensors } := by
  have hfind (name : String) : graph.stored.renumbered.tensors.find? name =
      (graph.tensors.find? name).map TensorInfo.stored := OrderedMap.find?_mapValues ..
  obtain ⟨tensors, hweighed, hkeys, hweighedFind⟩ := foldlM_loadEntry
    (fun name ↦ (graph.data? name).map (Strided.restored storage))
    (OrderedMap.nodup_keys_ofList (packed.manifest.map fun entry ↦ (entry.name, entry.toRecord)))
    graph.stored.renumbered fun entry hentry info hinfo ↦ by
      obtain ⟨entry, hmem, rfl⟩ := exists_of_mem_manifestRecord hentry
      exact exists_loadWeight hbuilt hfits hpacked hmem ((hfind entry.name).symm.trans hinfo)
  refine ⟨tensors, hweighed, rfl, Graph.numberedFrom_map_stored 0 graph.nodes, rfl, rfl, rfl,
    hkeys.trans (OrderedMap.keys_mapValues ..), fun name ↦ ?_⟩
  show tensors.find? name = _
  rw [hweighedFind, hfind, ← restored_of_find? (holds_of_pack hpacked)]
  simp only [mem_keys_manifestRecord]

/-- What a graph without weights is loaded as. -/
theorem restored_stored (hpacked : graph.pack storage = .ok packed) (hnone : packed.manifest = []) :
    graph.Restored storage graph.stored.renumbered := by
  refine ⟨rfl, Graph.numberedFrom_map_stored 0 graph.nodes, rfl, rfl, rfl,
    OrderedMap.keys_mapValues .., fun name ↦ ?_⟩
  have hfind : graph.stored.renumbered.tensors.find? name =
      (graph.tensors.find? name).map TensorInfo.stored := OrderedMap.find?_mapValues ..
  rw [hfind, ← restored_of_find? (holds_of_pack hpacked), hnone]
  simp [Function.comp_def]

/-- A graph that is saved is loaded with its nodes, tensors and roles, and with the data of its
constants, brought to the storage type and back. -/
theorem load_save_in (hbuilt : graph.Built) (hlegible : graph.toRecord.isLegible 0 = true)
    (hfits : graph.FitsIn storage)
    (hreached : (Files.pathAt stem ".weights" >>= Files.nameOf).Returns)
    (hsaved : graph.save files stem storage = (saved, .ok ())) :
    ∃ loaded, Graph.load saved stem = .ok loaded ∧ graph.Restored storage loaded := by
  obtain ⟨packed, document, hpacked, hdocument, hstopped, hfiles⟩ := save_eq_ok hsaved
  obtain ⟨weights, hweights⟩ := hreached
  have hholds := holds_of_pack hpacked
  have hread := readStored_document
    (isLegible_storedRecord hlegible hholds (hfits.length packed hpacked)) hstopped
  have hdifferent := documentName_ne_weightsName hdocument hweights
  have hrecord := Graph.ofRecord_stored hbuilt [("weights", manifestRecord packed.manifest)]
  obtain ⟨fields, hfields, hmanifest⟩ : ∃ fields, (graph.storedRecord packed).stored.fields =
      .ok fields ∧ fields.find? "weights" = some (manifestRecord packed.manifest) :=
    ⟨_, rfl, congrArg some (stored_manifestRecord packed.manifest)⟩
  rcases hfiles with ⟨hblobs, rfl⟩ | ⟨other, hblobs, hother, rfl⟩
  · -- Weights of an earlier graph may still stand there, but an empty manifest passes over them.
    have hfound : (files.insert document (graph.document packed)).find? document =
        some (graph.document packed) := OrderedMap.find?_insert_self ..
    have hloaded := load_eq hdocument hweights hfound hread hrecord hfields hmanifest
    have hnone : packed.manifest = [] := by
      rw [← List.length_eq_zero_iff, hholds.entries, hblobs, List.length_nil]
    rw [hnone] at hloaded
    exact ⟨graph.stored.renumbered, hloaded.trans (by split <;> rfl), restored_stored hpacked hnone⟩
  · obtain rfl : other = weights := Except.ok.inj (hother.symm.trans hweights)
    have hfound : ((files.insert document (graph.document packed)).insert other
        (.bytes packed.blobs.flatten)).find? document = some (graph.document packed) := by
      rw [OrderedMap.find?_insert_of_ne _ hdifferent, OrderedMap.find?_insert_self]
    have hloaded := load_eq hdocument hweights hfound hread hrecord hfields hmanifest
    rw [OrderedMap.find?_insert_self] at hloaded
    have htrue : (manifestRecord packed.manifest).isTrue = true := by
      refine isTrue_manifestRecord ?_
      rw [← List.length_pos_iff, hholds.entries]
      exact List.length_pos_of_ne_nil hblobs
    dsimp only at hloaded
    rw [htrue, if_pos rfl] at hloaded
    obtain ⟨tensors, hweighed, hrestored⟩ := foldlM_loadEntry_manifest hbuilt hfits hpacked
    exact ⟨_, hloaded.trans hweighed, hrestored⟩

/-- A graph that is saved with its weights as they are is loaded with its nodes, tensors and roles,
and with the data of its constants. -/
theorem load_save (hbuilt : graph.Built) (hlegible : graph.toRecord.isLegible 0 = true)
    (hfits : graph.Fits) (hreached : (Files.pathAt stem ".weights" >>= Files.nameOf).Returns)
    (hsaved : graph.save files stem none = (saved, .ok ())) :
    ∃ loaded, Graph.load saved stem = .ok loaded ∧ graph.Restored none loaded :=
  load_save_in hbuilt hlegible hfits.fitsIn hreached hsaved

end Loading

end Handover
