import Handover.Proofs.Document.Cut
import Handover.Proofs.Storage.Roundtrip

/-!
# Saving that fails

A graph is packed before any file is opened, so a failure of the packing leaves every file as it was
(`save_of_pack_eq_error`). The document is then written as it is formed: a value that cannot be
written leaves it cut short (`save_of_not_isStorable`), and it can no longer be loaded. So saving is
all or nothing for the graphs of which every attribute can be written, and for no others
(`save_all_or_nothing`); a graph that was saved before is lost (`earlier_graph_lost`).
-/

set_option autoImplicit false
set_option relaxedAutoImplicit false

namespace Handover

/-! ### Records that can be written -/

section Storable

theorem haveStorable_append (fields extra : List (String × Attr)) :
    Attr.haveStorable (fields ++ extra) =
      (Attr.haveStorable fields && Attr.haveStorable extra) := by
  induction fields with
  | nil => rw [List.nil_append, Attr.haveStorable, Bool.true_and]
  | cons field rest ih =>
    rw [List.cons_append, Attr.haveStorable, ih, Attr.haveStorable, Bool.and_assoc]

theorem haveStorable_of_forall {fields : List (String × Attr)}
    (hfields : ∀ field ∈ fields, field.2.isStorable = true) : Attr.haveStorable fields = true := by
  induction fields with
  | nil => rfl
  | cons field rest ih =>
    obtain ⟨hfield, hrest⟩ := List.forall_mem_cons.mp hfields
    rw [Attr.haveStorable, hfield, ih hrest, Bool.true_and]

/-- A manifest that can be read back can be written. -/
theorem isStorable_manifestRecord {manifest : List ManifestEntry} {depth : Nat}
    (hlegible : (manifestRecord manifest).isLegible depth = true) :
    (manifestRecord manifest).isStorable = true := by
  simp only [manifestRecord, Attr.isLegible, Bool.and_eq_true, Attr.haveLegible_iff] at hlegible
  rw [manifestRecord, Attr.isStorable]
  refine haveStorable_of_forall fun field hfield ↦ ?_
  have hfields := hlegible.2 field hfield
  obtain ⟨entry, -, rfl⟩ := exists_of_mem_manifestRecord hfield
  simp only [ManifestEntry.toRecord, Attr.isLegible, Attr.haveLegible, Bool.and_eq_true] at hfields
  obtain ⟨-, hoffset, hsize, -⟩ := hfields
  have hshort : isShortInteger entry.offset = true ∧ isShortInteger entry.size = true :=
    ⟨hoffset.2, hsize.2⟩
  simp [ManifestEntry.toRecord, Attr.isStorable, Attr.haveStorable, hshort]

variable {graph : Graph} {packed : Packed}

/-- The record and the manifest of a document that can be read back can be read back. -/
theorem haveLegible_of_isLegible_storedRecord
    (hlegible : (graph.storedRecord packed).isLegible 0 = true) :
    Attr.haveLegible 1 graph.recordFields = true ∧
      (manifestRecord packed.manifest).isLegible 1 = true := by
  simp only [Graph.storedRecord, Attr.isLegible, Bool.and_eq_true, Attr.haveLegible_iff] at hlegible
  exact ⟨Attr.haveLegible_iff.mpr fun field hfield ↦
      hlegible.2 field (List.mem_append_left _ hfield),
    hlegible.2 _ (List.mem_append_right _ (List.mem_singleton_self _))⟩

/-- The record of a graph can be read back if its document can. -/
theorem isLegible_toRecord (hlegible : (graph.storedRecord packed).isLegible 0 = true) :
    graph.toRecord.isLegible 0 = true := by
  rw [Graph.toRecord, Attr.isLegible, (haveLegible_of_isLegible_storedRecord hlegible).1]
  simp [Graph.recordFields]

/-- The document of a graph can be written if the record of the graph can. -/
theorem isStorable_storedRecord (hlegible : (graph.storedRecord packed).isLegible 0 = true) :
    (graph.storedRecord packed).isStorable = graph.toRecord.isStorable := by
  have hmanifest : Attr.haveStorable [("weights", manifestRecord packed.manifest)] = true := by
    rw [Attr.haveStorable,
      isStorable_manifestRecord (haveLegible_of_isLegible_storedRecord hlegible).2]
    rfl
  rw [Graph.storedRecord, Attr.isStorable, haveStorable_append, hmanifest, Bool.and_true,
    Graph.toRecord, Attr.isStorable]

end Storable

/-! ### Where saving stops -/

section Stops

variable {graph : Graph} {files : Files} {stem : String} {storage : Option String} {packed : Packed}
  {document : String} {err : Error}

/-- The writer stops in the document of a graph exactly if the record of the graph cannot be
written. -/
theorem stopped_writeDocument (hlegible : (graph.storedRecord packed).isLegible 0 = true) :
    (Document.writeDocument (graph.storedRecord packed)).stopped =
      Document.stopOf graph.toRecord.isStorable := by
  rw [Document.writeDocument, Document.stopped_writeValue hlegible,
    isStorable_storedRecord hlegible]

theorem save_of_pack_eq_error (hpack : graph.pack storage = .error err) :
    graph.save files stem storage = (files, .error err) := by
  rw [Graph.save, hpack]

theorem save_of_name_eq_error (hpack : graph.pack storage = .ok packed)
    (hdocument : (Files.pathAt stem ".json" >>= Files.nameOf) = .error err) :
    graph.save files stem storage = (files, .error err) := by
  rw [Graph.save, hpack]
  dsimp only
  rw [hdocument]

/-- A value that cannot be written leaves the document cut short, and the weights as they were. -/
theorem save_of_not_isStorable (hpack : graph.pack storage = .ok packed)
    (hlegible : (graph.storedRecord packed).isLegible 0 = true)
    (hdocument : (Files.pathAt stem ".json" >>= Files.nameOf) = .ok document)
    (hstop : graph.toRecord.isStorable = false) :
    graph.save files stem storage =
      (files.insert document (graph.document packed), complains Document.notWritten) := by
  have hstopped := stopped_writeDocument hlegible
  rw [hstop] at hstopped
  rw [Graph.save, hpack]
  dsimp only
  rw [hdocument]
  dsimp only
  rw [← Graph.storedRecord, hstopped]
  rfl

/-- Once the document of a graph that can be written is open, saving succeeds. -/
theorem save_of_isStorable (hpack : graph.pack storage = .ok packed)
    (hlegible : (graph.storedRecord packed).isLegible 0 = true)
    (hdocument : (Files.pathAt stem ".json" >>= Files.nameOf) = .ok document)
    (hreached : (Files.pathAt stem ".weights" >>= Files.nameOf).Returns)
    (hstorable : graph.toRecord.isStorable = true) :
    (graph.save files stem storage).2 = .ok () := by
  obtain ⟨weights, hweights⟩ := hreached
  have hstopped := stopped_writeDocument hlegible
  rw [hstorable, Document.stopOf, if_pos rfl] at hstopped
  rw [Graph.save, hpack]
  dsimp only
  rw [hdocument]
  dsimp only
  rw [← Graph.storedRecord, hstopped]
  dsimp only
  split_ifs
  · rfl
  · rw [hweights]

/-- A document that is cut short cannot be loaded. -/
theorem load_cut (hlegible : (graph.storedRecord packed).isLegible 0 = true)
    (hdocument : (Files.pathAt stem ".json" >>= Files.nameOf) = .ok document)
    (hstop : graph.toRecord.isStorable = false) :
    Graph.load (files.insert document (graph.document packed)) stem = fails .malformedDocument := by
  have hread : readStored (graph.document packed) = fails .malformedDocument := by
    have hsame : Document.writeDocument (graph.storedRecord packed) =
        Document.writeDocument graph.toRecord :=
      Document.writeDocument_append (haveLegible_of_isLegible_storedRecord hlegible).1 hstop _
    rw [readStored, Graph.document, Content.toText?]
    dsimp only
    rw [hsame, Document.readDocument_cut hstop (isLegible_toRecord hlegible)]
    rfl
  obtain ⟨path, hpath, hname⟩ := Result.bind_eq_ok_iff.mp hdocument
  have hcontent : Files.read (files.insert document (graph.document packed)) document =
      .ok (graph.document packed) := by
    rw [Files.read, OrderedMap.find?_insert_self]
  rw [Graph.load, hpath, Result.ok_bind, hname, Result.ok_bind, hcontent, Result.ok_bind, hread]
  rfl

end Stops

/-- Saving is all or nothing exactly for the graphs of which every attribute can be written. A
failure of the packing leaves every file as it was. Of a graph that can be written nothing is
changed when saving fails. Of a graph that cannot be written the document is left cut short once it
is open: it cannot be loaded, and all other files are as they were. Assumes: a document that can be
read back when it is written, and a file of weights that can be reached. -/
theorem save_all_or_nothing (graph : Graph) (files : Files) {stem : String}
    (storage : Option String)
    (hlegible : ∀ packed, graph.pack storage = .ok packed →
      (graph.storedRecord packed).isLegible 0 = true)
    (hreached : (Files.pathAt stem ".weights" >>= Files.nameOf).Returns) :
    (∀ err, graph.pack storage = .error err →
      graph.save files stem storage = (files, .error err)) ∧
    (graph.toRecord.isStorable = true → ∀ err, (graph.save files stem storage).2 = .error err →
      (graph.save files stem storage).1 = files) ∧
    (graph.toRecord.isStorable = false → ∀ packed document, graph.pack storage = .ok packed →
      (Files.pathAt stem ".json" >>= Files.nameOf) = .ok document →
        (graph.save files stem storage).2 = complains Document.notWritten ∧
        (∀ name, name ≠ document →
          (graph.save files stem storage).1.find? name = files.find? name) ∧
        Graph.load (graph.save files stem storage).1 stem = fails .malformedDocument) := by
  refine ⟨fun err hpack ↦ save_of_pack_eq_error hpack, fun hstorable err hfailed ↦ ?_,
    fun hstop packed document hpack hdocument ↦ ?_⟩
  · cases hpack : graph.pack storage with
    | error other => rw [save_of_pack_eq_error hpack]
    | ok packed =>
      cases hdocument : (Files.pathAt stem ".json" >>= Files.nameOf) with
      | error other => rw [save_of_name_eq_error hpack hdocument]
      | ok document =>
        rw [save_of_isStorable hpack (hlegible packed hpack) hdocument hreached hstorable]
          at hfailed
        cases hfailed
  · rw [save_of_not_isStorable hpack (hlegible packed hpack) hdocument hstop]
    exact ⟨rfl, fun name hname ↦ OrderedMap.find?_insert_of_ne _ hname _,
      load_cut (hlegible packed hpack) hdocument hstop⟩

/-- A graph with a truth-valued scalar in a record among the attributes, which cannot be written. -/
def flagged : Graph :=
  (Graph.make "flagged"
    [.input "x" [.int 2] "float32", .tensor "y" [.int 2] "float32",
      .node .relu ["x"] ["y"] ⟨[("meta", .record [("flag", .scalar ⟨.bool, 1⟩)])]⟩]
    ["y"]).toOption.get rfl

/-- What a graph with weights left in the files when it was saved. -/
def earlierFiles : Files := (weighed.save {} "g" none).1

theorem nameOf_g : (Files.pathAt "g" ".json" >>= Files.nameOf) = .ok "g.json" :=
  Result.eq_ok_of_toOption_eq_some (by decide +kernel)

/-- A storage type that is none for weights changes nothing; an attribute that cannot be written
leaves a document which cannot be loaded. -/
theorem save_all_or_nothing_flagged :
    (weighed.save earlierFiles "g" (some "int8")).1 = earlierFiles ∧
      (flagged.save earlierFiles "g" none).2 = complains Document.notWritten ∧
      Graph.load (flagged.save earlierFiles "g" none).1 "g" = fails .malformedDocument := by
  have hreached : (Files.pathAt "g" ".weights" >>= Files.nameOf).Returns :=
    Result.returns_of_isSome (by decide +kernel)
  have hrefused : (weighed.pack (some "int8")).toOption = none := by decide +kernel
  obtain ⟨-, hstorable, -⟩ := save_all_or_nothing weighed earlierFiles (some "int8")
    (fun packed hpack ↦ by rw [hpack] at hrefused; cases hrefused) hreached
  obtain ⟨-, -, hcut⟩ := save_all_or_nothing flagged earlierFiles none (by
    rintro _ ⟨⟩
    decide +kernel) hreached
  obtain ⟨hfailed, -, hloaded⟩ := hcut (by decide +kernel) {} "g.json" rfl nameOf_g
  exact ⟨hstorable (by decide +kernel) _ rfl, hfailed, hloaded⟩

/-- A graph that was saved is loaded, but no longer after the saving of another one under the same
stem has failed. -/
theorem earlier_graph_lost :
    flagged.Built ∧ (∃ loaded, Graph.load earlierFiles "g" = .ok loaded) ∧
      (flagged.save earlierFiles "g" none).2 = complains Document.notWritten ∧
      (flagged.save earlierFiles "g" none).1.find? "g.json" ≠ earlierFiles.find? "g.json" ∧
      Graph.load (flagged.save earlierFiles "g" none).1 "g" = fails .malformedDocument := by
  have hbuilt : flagged.Built := (Graph.built_make _ _ _).get rfl
  have hsaved : (weighed.save {} "g" none).2 = .ok () :=
    Result.eq_ok_of_toOption_eq_some (by decide +kernel)
  have hfits : weighed.FitsIn none :=
    Graph.fitsIn_of_toOption (by decide +kernel) (by decide +kernel) (by decide +kernel)
  obtain ⟨loaded, hloaded, -⟩ := load_save_in weighed_built (by decide +kernel) hfits
    (Result.returns_of_isSome (by decide +kernel)) (Prod.ext rfl hsaved)
  have hlegible : (flagged.storedRecord {}).isLegible 0 = true := by decide +kernel
  have hlost : flagged.save earlierFiles "g" none =
      (earlierFiles.insert "g.json" (flagged.document {}), complains Document.notWritten) :=
    save_of_not_isStorable rfl hlegible nameOf_g (by decide +kernel)
  refine ⟨hbuilt, ⟨loaded, hloaded⟩, congrArg Prod.snd hlost, by decide +kernel, ?_⟩
  rw [hlost]
  exact load_cut hlegible nameOf_g (by decide +kernel)

end Handover
