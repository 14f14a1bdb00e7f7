import Handover.Proofs.Graph.Calls
import Handover.Proofs.Storage.Loading

/-!
# Saving a graph and loading it again

The files of a saved graph say where each weight stands (`Graph.SavedWith`): one entry for each
constant with data, in order, and the entries follow one another without gaps through the whole file
of weights. The graph that is loaded has the parts of the one that was saved and the data of its
constants, brought to the storage type and back, whatever was saved under other stems in between
(`load_save_cast`). Its nodes are numbered by their places, and so they have their identifiers if
the graph lost none.

The manifest keeps the name of the type that a weight is stored in, and the name does not say which
byte comes first. So where the highest does, by the storage type (`bytes_turned_round`) or by the
constant itself (`constant_turned_round`), every element is read with its bytes turned round.
-/

set_option autoImplicit false
set_option relaxedAutoImplicit false

namespace Handover

/-! ### The manifest of a saved graph -/

/-- What the files of a saved graph say of its weights: the document lists one entry for each
constant with data, in order, and the entries stand one right after the other in the file of
weights, from its start to its end. -/
structure Graph.SavedWith (graph : Graph) (storage : Option String) (saved : Files) (stem : String)
    (manifest : List ManifestEntry) : Prop where
  order : manifest.map ManifestEntry.name =
    graph.constants.filter fun name ↦ (graph.data? name).isSome
  sizes : ∀ entry ∈ manifest, ∃ data, graph.data? entry.name = some data ∧
    storageEncoding data.encoding storage = .ok entry.encoding ∧
    entry.size = entry.encoding.kind.byteCount * Shape.size data.tensor.shape
  document : ∃ document content record,
    (Files.pathAt stem ".json" >>= Files.nameOf) = .ok document ∧
      saved.find? document = some content ∧ readStored content = .ok record ∧
      record.entry "weights" =
        .ok (.record (manifest.map fun entry ↦ (entry.name, entry.toRecord)))
  weights : manifest ≠ [] → ∃ weights bytes,
    (Files.pathAt stem ".weights" >>= Files.nameOf) = .ok weights ∧
      saved.find? weights = some (.bytes bytes) ∧ Tiles 0 manifest bytes.length ∧
      (manifest.map ManifestEntry.size).sum = bytes.length

section Manifest

variable {graph : Graph} {storage : Option String} {files saved : Files} {stem : String}
  {packed : Packed}

theorem Packed.Holds.nodup {names : List String} (hholds : packed.Holds graph storage names)
    (hnames : names.Nodup) : (packed.manifest.map ManifestEntry.name).Nodup := by
  rw [hholds.order]
  exact hnames.filter _

theorem Packed.Holds.size_eq {names : List String} (hholds : packed.Holds graph storage names)
    {entry : ManifestEntry} (hentry : entry ∈ packed.manifest) :
    ∃ data, graph.data? entry.name = some data ∧
      storageEncoding data.encoding storage = .ok entry.encoding ∧
      entry.size = entry.encoding.kind.byteCount * Shape.size data.tensor.shape := by
  obtain ⟨data, encoding, before, after, -, hdata, hencoding, hplace, -⟩ :=
    hholds.placed entry hentry
  have hsize : entry.size = (data.tensor.encoded encoding).length := by rw [hplace]
  obtain rfl : entry.encoding = encoding := by rw [hplace]
  refine ⟨data, hdata, hencoding, ?_⟩
  rw [hsize, length_encoded (Encoding.isNumber_of_storageEncoding hencoding), Nat.mul_comm]

/-- The manifest of different constants, as the document holds it. -/
theorem entry_weights_stored (graph : Graph)
    (hnodup : (packed.manifest.map ManifestEntry.name).Nodup) :
    (graph.storedRecord packed).stored.entry "weights" =
      .ok (.record (packed.manifest.map fun entry ↦ (entry.name, entry.toRecord))) := by
  have hentries : (OrderedMap.ofList (packed.manifest.map fun entry ↦
      (entry.name, entry.toRecord))).entries =
        packed.manifest.map fun entry ↦ (entry.name, entry.toRecord) := by
    refine OrderedMap.entries_ofList ?_
    rw [List.map_map]
    exact hnodup
  have hfound : (graph.storedRecord packed).stored.entry "weights" =
      .ok (manifestRecord packed.manifest).stored := rfl
  rw [hfound, stored_manifestRecord, manifestRecord, hentries]

/-- The files of a graph that is saved say where its weights stand. -/
theorem save_savedWith (hconstants : graph.constants.Nodup)
    (hlegible : graph.toRecord.isLegible 0 = true) (hfits : graph.FitsIn storage)
    (hsaved : graph.save files stem storage = (saved, .ok ())) :
    ∃ manifest, graph.SavedWith storage saved stem manifest := by
  obtain ⟨packed, document, hpacked, hdocument, hstopped, hfiles⟩ := save_eq_ok hsaved
  have hholds := holds_of_pack hpacked
  have hread := readStored_document
    (isLegible_storedRecord hlegible hholds (hfits.length packed hpacked)) hstopped
  have hentry := entry_weights_stored graph (hholds.nodup hconstants)
  refine ⟨packed.manifest, hholds.order, fun entry hmem ↦ hholds.size_eq hmem, ?_, fun hsome ↦ ?_⟩
  · refine ⟨document, graph.document packed, _, hdocument, ?_, hread, hentry⟩
    rcases hfiles with ⟨-, rfl⟩ | ⟨weights, -, hweights, rfl⟩
    · exact OrderedMap.find?_insert_self ..
    · rw [OrderedMap.find?_insert_of_ne _ (documentName_ne_weightsName hdocument hweights)]
      exact OrderedMap.find?_insert_self ..
  · rcases hfiles with ⟨hblobs, -⟩ | ⟨weights, -, hweights, rfl⟩
    · refine absurd ?_ hsome
      rw [← List.length_eq_zero_iff, hholds.entries, hblobs, List.length_nil]
    · have htiles : Tiles 0 packed.manifest packed.blobs.flatten.length :=
        hholds.length ▸ hholds.tiles
      refine ⟨weights, _, hweights, OrderedMap.find?_insert_self .., htiles, ?_⟩
      have hsum := htiles.sum_size
      rwa [Nat.zero_add] at hsum

end Manifest

/-! ### Data that is read back -/

section Data

variable {graph loaded : Graph} {storage : Option String}

/-- What a constant is read back as. It has its shape and the type that it had in memory, and its
data is brought to the storage type and back; it is as it was without a storage type, and where it
is no floating-point data. But the bytes of each element are turned round in between if the highest
comes first where the data is stored. -/
structure Graph.CastBack (graph : Graph) (storage : Option String) (loaded : Graph) : Prop where
  missing : ∀ name, graph.data? name = none → loaded.data? name = none
  named : ∀ name ∈ graph.constants, ∀ data, graph.data? name = some data →
    ∃ again, loaded.data? name = some again ∧ again.tensor.shape = data.tensor.shape ∧
      again.typeName = data.typeName
  own : ∀ name ∈ graph.constants, ∀ data, graph.data? name = some data →
    storage = none ∨ data.tensor.elementType.isReal = false →
      loaded.data? name =
        some (data.refilled (if data.isReversed then data.tensor.swapped else data.tensor))
  lowestFirst : ∀ name ∈ graph.constants, ∀ data, graph.data? name = some data →
    ∀ stored, storageEncoding data.encoding storage = .ok ⟨.element stored, false⟩ →
      loaded.data? name =
        some (data.refilled ((data.tensor.convert stored).convert data.tensor.elementType))
  highestFirst : ∀ name ∈ graph.constants, ∀ data, graph.data? name = some data →
    ∀ stored, storageEncoding data.encoding storage = .ok ⟨.element stored, true⟩ →
      loaded.data? name =
        some (data.refilled ((data.tensor.convert stored).swapped.convert data.tensor.elementType))
  extended : ∀ name ∈ graph.constants, ∀ data, graph.data? name = some data →
    storageEncoding data.encoding storage = .ok ⟨.extended, false⟩ →
      loaded.data? name = some (data.refilled (data.tensor.map data.tensor.elementType fun word ↦
        Encoding.numberAs data.tensor.elementType
          (Encoding.extendedNumber (Encoding.extendedWord word.toNumber))))

theorem Graph.Restored.data?_eq (hrestored : graph.Restored storage loaded) (name : String) :
    loaded.data? name =
      if name ∈ graph.constants then (graph.data? name).map (Strided.restored storage)
      else none := by
  unfold Graph.data?
  rw [hrestored.tensors]
  cases graph.tensors.find? name with
  | none => simp
  | some info => rfl

theorem Graph.Restored.castBack (hrestored : graph.Restored storage loaded) :
    graph.CastBack storage loaded := by
  have hdata {name : String} (hname : name ∈ graph.constants) {data : Strided}
      (hsome : graph.data? name = some data) :
      loaded.data? name = some (data.restored storage) := by
    rw [hrestored.data?_eq, if_pos hname, hsome, Option.map_some]
  refine ⟨fun name hnone ↦ ?_, fun name hname data hsome ↦ ?_, fun name hname data hsome hown ↦ ?_,
    fun name hname data hsome stored hencoding ↦ ?_,
    fun name hname data hsome stored hencoding ↦ ?_, fun name hname data hsome hencoding ↦ ?_⟩
  · rw [hrestored.data?_eq, hnone]
    split_ifs <;> rfl
  · exact ⟨_, hdata hname hsome, data.restored_named storage⟩
  · rw [hdata hname hsome, data.restored_own hown]
  all_goals
    rw [hdata hname hsome, data.restored_eq hencoding]
    rfl

/-- The nodes of a graph that is loaded have their places as identifiers. -/
theorem Graph.Restored.ids (hrestored : graph.Restored storage loaded) :
    loaded.nodes.map Node.id = List.range graph.nodes.length := by
  rw [hrestored.nodes, List.map_map, List.range_eq_range']
  exact Graph.map_id_numberedFrom 0 graph.nodes

end Data

/-- A graph that is saved is loaded with its parts and with the data of its constants, brought to
the storage type and back, whatever is saved under other stems in between; and its files say where
each weight stands. The nodes have the same identifiers exactly if these are their places. Assumes:
constants that are listed once, a record that can be read back, and weights within the limits of
tensors, whose file can be reached. -/
theorem load_save_cast {graph : Graph} {storage : Option String} {files saved : Files}
    {stem : String} (hbuilt : graph.Built) (hconstants : graph.constants.Nodup)
    (hlegible : graph.toRecord.isLegible 0 = true) (hfits : graph.FitsIn storage)
    (hreached : (Files.pathAt stem ".weights" >>= Files.nameOf).Returns)
    (hsaved : graph.save files stem storage = (saved, .ok ())) :
    ∃ manifest loaded, graph.SavedWith storage saved stem manifest ∧
      Graph.load saved stem = .ok loaded ∧ graph.Restored storage loaded ∧
      graph.CastBack storage loaded ∧
      (loaded.nodes.map Node.id = graph.nodes.map Node.id ↔
        graph.nodes.map Node.id = List.range graph.nodes.length) ∧
      ∀ (other : Graph) (stemOther : String) (storageOther : Option String),
        Path.ofText stemOther ≠ Path.ofText stem →
          Graph.load (other.save saved stemOther storageOther).1 stem = .ok loaded := by
  obtain ⟨manifest, hmanifest⟩ := save_savedWith hconstants hlegible hfits hsaved
  obtain ⟨loaded, hloaded, hrestored⟩ := load_save_in hbuilt hlegible hfits hreached hsaved
  have hids : loaded.nodes.map Node.id = graph.nodes.map Node.id ↔
      graph.nodes.map Node.id = List.range graph.nodes.length := by
    rw [hrestored.ids, eq_comm]
  exact ⟨manifest, loaded, hmanifest, hloaded, hrestored, hrestored.castBack, hids,
    fun other stemOther storageOther hstem ↦ (load_save_of_ne hstem).trans hloaded⟩

/-- A graph that scales a tensor by floating-point weights and shifts it by integer ones. -/
def weighed : Graph :=
  (Graph.make "weighed"
    [.input "x" [.int 2] "float32",
      .constant "w" (Tensor.tabulate .float32 [2] fun index ↦
        if index = [0] then 0x3f800000 else 0x3dcccccd),
      .constant "b" (Tensor.tabulate .int64 [2] fun index ↦ Word.ofInt .int64 (index.getD 0 0)),
      .tensor "y" [.int 2] "float32", .node .mul ["x", "w"] ["y"] {},
      .node .add ["y", "b"] ["y"] {}] ["y"]).toOption.get rfl

theorem weighed_built : weighed.Built := (Graph.built_make _ _ _).get rfl

/-- Stored in half the bytes, floating-point weights lose digits and integer weights do not, and
another graph that is saved beside them changes nothing. -/
theorem load_save_cast_weighed :
    ∃ loaded, Graph.load (weighed.save ⟨[("g.weights", .bytes [1])]⟩ "g" (some "float16")).1 "g" =
        .ok loaded ∧
      Graph.load (Graph.save {} (weighed.save ⟨[("g.weights", .bytes [1])]⟩ "g"
        (some "float16")).1 "g.v2" none).1 "g" = .ok loaded ∧
      (loaded.data? "w").map (Tensor.toBytes ∘ Strided.tensor) =
        some [0, 0, 128, 63, 0, 192, 204, 61] ∧
      (loaded.data? "b").map (Tensor.toBytes ∘ Strided.tensor) =
        some [0, 0, 0, 0, 0, 0, 0, 0, 1, 0, 0, 0, 0, 0, 0, 0] := by
  have hfits : weighed.FitsIn (some "float16") :=
    Graph.fitsIn_of_toOption (by decide +kernel) (by decide +kernel) (by decide +kernel)
  have hsaved : (weighed.save ⟨[("g.weights", .bytes [1])]⟩ "g" (some "float16")).2 = .ok () :=
    Result.eq_ok_of_toOption_eq_some (by decide +kernel)
  obtain ⟨manifest, loaded, -, hloaded, -, hdata, -, hothers⟩ := load_save_cast weighed_built
    (by decide +kernel) (by decide +kernel) hfits
    (Result.returns_of_isSome (by decide +kernel)) (Prod.ext rfl hsaved)
  refine ⟨loaded, hloaded, hothers {} "g.v2" none (by decide +kernel), ?_, ?_⟩
  · rw [hdata.lowestFirst "w" (by decide +kernel) _ rfl .float16 rfl]
    decide +kernel
  · rw [hdata.own "b" (by decide +kernel) _ rfl (.inr rfl)]
    decide +kernel

/-- A storage type whose highest byte comes first names the type in which the weights are already,
but the weights come back with the bytes of each element turned round. -/
theorem bytes_turned_round :
    weighed.Built ∧ weighed.constants.Nodup ∧
      storageEncoding (.ofElementType .float32) (some ">f4") = .ok ⟨.element .float32, true⟩ ∧
      (weighed.save {} "g" (some ">f4")).2 = .ok () ∧
      (weighed.data? "w").map (Tensor.toBytes ∘ Strided.tensor) =
        some [0, 0, 128, 63, 205, 204, 204, 61] ∧
      ∃ loaded, Graph.load (weighed.save {} "g" (some ">f4")).1 "g" = .ok loaded ∧
        (loaded.data? "w").map (Tensor.toBytes ∘ Strided.tensor) =
          some [63, 128, 0, 0, 61, 204, 204, 205] := by
  have hfits : weighed.FitsIn (some ">f4") :=
    Graph.fitsIn_of_toOption (by decide +kernel) (by decide +kernel) (by decide +kernel)
  have hsaved : (weighed.save {} "g" (some ">f4")).2 = .ok () :=
    Result.eq_ok_of_toOption_eq_some (by decide +kernel)
  have hconstants : weighed.constants.Nodup := by decide +kernel
  obtain ⟨loaded, hloaded, hrestored⟩ := load_save_in weighed_built (by decide +kernel) hfits
    (Result.returns_of_isSome (by decide +kernel)) (Prod.ext rfl hsaved)
  refine ⟨weighed_built, hconstants, rfl, hsaved, by decide +kernel, loaded, hloaded, ?_⟩
  rw [hrestored.castBack.highestFirst "w" (by decide +kernel) _ rfl .float32 rfl]
  decide +kernel

/-- A graph with one weight that stands with its highest byte first. -/
def highestFirstWeight : Graph :=
  (Graph.make "highest_first"
    [.constant "w" ⟨⟨.float32, [1], #[0x3f800000], rfl⟩, [1], true⟩] []).toOption.get rfl

/-- A weight with the highest byte first comes back with its bytes turned round where no storage
type is asked for. -/
theorem constant_turned_round :
    highestFirstWeight.Built ∧ (highestFirstWeight.save {} "g" none).2 = .ok () ∧
      (highestFirstWeight.data? "w").map (Tensor.toBytes ∘ Strided.tensor) =
        some [0, 0, 128, 63] ∧
      ∃ loaded, Graph.load (highestFirstWeight.save {} "g" none).1 "g" = .ok loaded ∧
        (loaded.data? "w").map (Tensor.toBytes ∘ Strided.tensor) = some [63, 128, 0, 0] := by
  have hbuilt : highestFirstWeight.Built := (Graph.built_make _ _ _).get rfl
  have hfits : highestFirstWeight.FitsIn none :=
    Graph.fitsIn_of_toOption (by decide +kernel) (by decide +kernel) (by decide +kernel)
  have hsaved : (highestFirstWeight.save {} "g" none).2 = .ok () :=
    Result.eq_ok_of_toOption_eq_some (by decide +kernel)
  obtain ⟨loaded, hloaded, hrestored⟩ := load_save_in hbuilt (by decide +kernel) hfits
    (Result.returns_of_isSome (by decide +kernel)) (Prod.ext rfl hsaved)
  refine ⟨hbuilt, hsaved, by decide +kernel, loaded, hloaded, ?_⟩
  rw [hrestored.castBack.own "w" (by decide +kernel) _ rfl (.inl rfl)]
  decide +kernel

end Handover
