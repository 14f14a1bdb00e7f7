import Handover.Proofs.Computation
import Handover.Storage.Archive

/-!
# Graphs in one directory

A path is known by its text (`Path.toText_injective`), so the files of different stems are different
files, and so are the document and the weights of one stem (`fileName_ne_of_stem_ne`,
`documentName_ne_weightsName`). Saving a graph changes no other file than its own two
(`find?_save_of_ne`), and loading a graph reads no other than these (`load_congr`). So a graph that
is saved is loaded as it is, whatever is saved under other stems in between (`load_save_of_ne`).
-/

set_option autoImplicit false
set_option relaxedAutoImplicit false

namespace Handover

/-! ### Paths and their texts -/

namespace Path

theorem slash_not_mem_cutAtSlashes (text : List Char) :
    '/' ∉ (cutAtSlashes text).1 ∧ ∀ part ∈ (cutAtSlashes text).2, '/' ∉ part := by
  induction text with
  | nil => simp [cutAtSlashes]
  | cons c rest ih =>
    obtain ⟨hpart, hothers⟩ := ih
    unfold cutAtSlashes
    dsimp only
    split_ifs with hc
    · exact ⟨List.not_mem_nil, List.forall_mem_cons.mpr ⟨hpart, hothers⟩⟩
    · exact ⟨List.not_mem_cons_of_ne_of_not_mem (Ne.symm hc) hpart, hothers⟩

/-- Whether a text can stand between the slashes of a path. -/
def IsPart (name : String) : Prop := name ≠ "" ∧ '/' ∉ name.toList

theorem isPart_of_mem_split {text name : String} (hname : name ∈ split text) : IsPart name := by
  unfold split at hname
  obtain ⟨hmem, hkept⟩ := List.mem_filter.mp hname
  obtain ⟨part, hpart, rfl⟩ := List.mem_map.mp hmem
  obtain ⟨hfirst, hothers⟩ := slash_not_mem_cutAtSlashes text.toList
  have hslash : '/' ∉ part := by
    rcases List.mem_cons.mp hpart with rfl | hpart
    · exact hfirst
    · exact hothers part hpart
  refine ⟨(of_decide_eq_true hkept).1, ?_⟩
  rwa [String.toList_ofList]

theorem rootOf_eq (text : String) : ∃ count, (rootOf text).toList = List.replicate count '/' := by
  unfold rootOf
  split
  · exact ⟨1, rfl⟩
  · exact ⟨2, rfl⟩
  · exact ⟨1, rfl⟩
  · exact ⟨0, rfl⟩

/-- A path whose names can stand between slashes. -/
structure IsFile (path : Path) : Prop where
  names : path.names ≠ []
  parts : ∀ name ∈ path.names, IsPart name
  root : ∃ count, path.root.toList = List.replicate count '/'

theorem toList_toText {path : Path} (hfile : path.IsFile) :
    path.toText.toList = path.root.toList ++ ['/'].intercalate (path.names.map String.toList) := by
  unfold toText
  rw [if_neg fun hnone ↦ hfile.names hnone.2, String.toList_append, String.toList_intercalate]
  rfl

/-- After its root, the text of a path does not begin with a slash. -/
theorem takeWhile_toText {path : Path} (hfile : path.IsFile) :
    path.toText.toList.takeWhile (· == '/') = path.root.toList := by
  obtain ⟨count, hroot⟩ := hfile.root
  obtain ⟨first, rest, hnames⟩ := List.exists_cons_of_ne_nil hfile.names
  obtain ⟨hempty, hslash⟩ := hfile.parts first (hnames ▸ List.mem_cons_self ..)
  obtain ⟨c, tail, hfirst⟩ := List.exists_cons_of_ne_nil (l := first.toList) (by simpa using hempty)
  have hc : c ≠ '/' := by
    rintro rfl
    exact hslash (hfirst ▸ List.mem_cons_self ..)
  rw [toList_toText hfile, hroot, List.takeWhile_append_of_pos (by simp), hnames, List.map_cons,
    hfirst]
  cases rest <;> simp [List.intercalate, hc]

/-- A path is known by its text. -/
theorem toText_injective {path other : Path} (hpath : path.IsFile) (hother : other.IsFile)
    (htext : path.toText = other.toText) : path = other := by
  have hroot : path.root = other.root := by
    apply String.toList_injective
    rw [← takeWhile_toText hpath, ← takeWhile_toText hother, htext]
  have hnames : ['/'].intercalate (path.names.map String.toList) =
      ['/'].intercalate (other.names.map String.toList) := by
    have hboth := congrArg String.toList htext
    rw [toList_toText hpath, toList_toText hother, hroot] at hboth
    exact List.append_cancel_left hboth
  have hslash {names : List String} (hparts : ∀ name ∈ names, IsPart name) :
      ∀ part ∈ names.map String.toList, '/' ∉ part := by
    simp only [List.forall_mem_map]
    exact fun name hname ↦ (hparts name hname).2
  have hsplit := congrArg (List.splitOn '/') hnames
  rw [List.splitOn_intercalate _ (hslash hpath.parts) (by simpa using hpath.names),
    List.splitOn_intercalate _ (hslash hother.parts) (by simpa using hother.names)] at hsplit
  obtain ⟨root, names⟩ := path
  obtain ⟨_, others⟩ := other
  obtain rfl : root = _ := hroot
  obtain rfl : names = others :=
    List.map_injective_iff.mpr (fun _ _ ↦ String.toList_injective) hsplit
  rfl

end Path

/-! ### Names of files -/

section Names

theorem exists_toText_eq (root : String) (front : List String) (name : String) :
    ∃ before, Path.toText ⟨root, front ++ [name]⟩ = before ++ name := by
  unfold Path.toText
  rw [if_neg (by simp)]
  cases front with
  | nil => exact ⟨root, by simp⟩
  | cons first rest =>
    refine ⟨root ++ ("/".intercalate (first :: rest) ++ "/"), ?_⟩
    rw [String.intercalate_append_of_ne_nil (by simp) (by simp), String.append_assoc,
      String.intercalate_singleton]
    simp [String.append_assoc]

theorem eq_toText_of_nameOf {path : Path} {name : String} (hname : Files.nameOf path = .ok name) :
    name = path.toText := by
  unfold Files.nameOf at hname
  split_ifs at hname
  · cases hname
  · obtain ⟨_, -, hname⟩ := Result.bind_eq_ok_iff.mp hname
    exact (Except.ok.inj hname).symm

variable {stem other suffix : String} {path : Path}

/-- The file of a stem has the suffix added to the last name of the stem; the file of the directory
itself stands beside it. -/
theorem pathAt_eq_ok (hpath : Files.pathAt stem suffix = .ok path) :
    ∃ front last, path = ⟨Path.rootOf stem, front ++ [last ++ suffix]⟩ ∧
      (Path.split stem = front ++ [last] ∨
        Path.split stem = [] ∧ front = [".."] ∧ last = "") := by
  unfold Files.pathAt at hpath
  dsimp only at hpath
  split_ifs at hpath with hempty
  · obtain rfl := Except.ok.inj hpath
    exact ⟨[".."], "", by simp [Path.ofText], .inr ⟨List.isEmpty_iff.mp hempty, rfl, rfl⟩⟩
  · cases hsuffixed : (Path.ofText stem).withSuffix? suffix with
    | none =>
      rw [hsuffixed] at hpath
      cases hpath
    | some suffixed =>
      rw [hsuffixed] at hpath
      obtain rfl := Except.ok.inj hpath
      unfold Path.withSuffix? at hsuffixed
      split at hsuffixed
      · cases hsuffixed
      case h_2 last hlast =>
        split_ifs at hsuffixed
        obtain rfl := Option.some.inj hsuffixed
        exact ⟨_, last, rfl, .inl (List.dropLast_append_getLast? last hlast).symm⟩

theorem isFile_of_pathAt (hsuffix : Path.IsPart suffix)
    (hpath : Files.pathAt stem suffix = .ok path) : path.IsFile := by
  obtain ⟨front, last, rfl, hsplit⟩ := pathAt_eq_ok hpath
  refine ⟨by simp, ?_, Path.rootOf_eq stem⟩
  have hlast (hslash : '/' ∉ last.toList) : Path.IsPart (last ++ suffix) := by
    refine ⟨fun hnone ↦ hsuffix.1 (String.append_eq_empty_iff.mp hnone).2, ?_⟩
    rw [String.toList_append]
    exact List.not_mem_append hslash hsuffix.2
  intro name hname
  rcases hsplit with hsplit | ⟨-, rfl, rfl⟩
  · have hpart (part : String) (hmem : part ∈ front ++ [last]) : Path.IsPart part :=
      Path.isPart_of_mem_split (hsplit ▸ hmem)
    rcases List.mem_append.mp hname with hname | hname
    · exact hpart name (List.mem_append_left _ hname)
    · rw [List.mem_singleton.mp hname]
      exact hlast (hpart last (by simp)).2
  · rcases List.mem_append.mp hname with hname | hname
    · rw [List.mem_singleton.mp hname]
      exact ⟨by decide, by decide⟩
    · rw [List.mem_singleton.mp hname]
      exact hlast (by decide)

/-- Different stems have different paths with one suffix. -/
theorem ofText_eq_of_pathAt (hpath : Files.pathAt stem suffix = .ok path)
    (hother : Files.pathAt other suffix = .ok path) : Path.ofText stem = Path.ofText other := by
  obtain ⟨front, last, rfl, hsplit⟩ := pathAt_eq_ok hpath
  obtain ⟨frontOther, lastOther, heq, hsplitOther⟩ := pathAt_eq_ok hother
  obtain ⟨hroot, hnames⟩ := Path.mk.inj heq
  obtain ⟨rfl, hsuffixed⟩ := List.append_inj' hnames rfl
  obtain rfl : last = lastOther :=
    String.append_left_inj suffix |>.mp (List.singleton_inj.mp hsuffixed)
  -- The directory itself is not mixed up with a stem, whose last name is not empty.
  have hlast {text : String} (hnamed : Path.split text = front ++ [last]) : last ≠ "" :=
    (Path.isPart_of_mem_split (hnamed ▸ List.mem_append_right _ (List.mem_singleton_self _))).1
  have hnames : Path.split stem = Path.split other := by
    rcases hsplit with hsplit | ⟨hsplit, -, hempty⟩
    · rcases hsplitOther with hsplitOther | ⟨-, -, hempty⟩
      · rw [hsplit, hsplitOther]
      · exact absurd hempty (hlast hsplit)
    · rcases hsplitOther with hsplitOther | ⟨hsplitOther, -⟩
      · exact absurd hempty (hlast hsplitOther)
      · rw [hsplit, hsplitOther]
  rw [Path.ofText, Path.ofText, hroot, hnames]

/-- The name of a file ends in its suffix. -/
theorem exists_name_eq {name : String}
    (hname : (Files.pathAt stem suffix >>= Files.nameOf) = .ok name) :
    ∃ before, name = before ++ suffix := by
  obtain ⟨path, hpath, hname⟩ := Result.bind_eq_ok_iff.mp hname
  obtain ⟨front, last, rfl, -⟩ := pathAt_eq_ok hpath
  obtain ⟨before, htext⟩ := exists_toText_eq (Path.rootOf stem) front (last ++ suffix)
  refine ⟨before ++ last, ?_⟩
  rw [eq_toText_of_nameOf hname, htext, String.append_assoc]

/-- A document and weights are different files. -/
theorem documentName_ne_weightsName {document weights : String}
    (hdocument : (Files.pathAt stem ".json" >>= Files.nameOf) = .ok document)
    (hweights : (Files.pathAt other ".weights" >>= Files.nameOf) = .ok weights) :
    document ≠ weights := by
  obtain ⟨before, rfl⟩ := exists_name_eq hdocument
  obtain ⟨front, rfl⟩ := exists_name_eq hweights
  intro heq
  have hlast := congrArg (fun text : String ↦ text.toList.getLast?) heq
  simp at hlast

/-- Files of different stems are different. -/
theorem fileName_ne_of_stem_ne {name nameOther : String} (hsuffix : Path.IsPart suffix)
    (hname : (Files.pathAt stem suffix >>= Files.nameOf) = .ok name)
    (hother : (Files.pathAt other suffix >>= Files.nameOf) = .ok nameOther)
    (hstem : Path.ofText stem ≠ Path.ofText other) : name ≠ nameOther := by
  obtain ⟨path, hpath, hname⟩ := Result.bind_eq_ok_iff.mp hname
  obtain ⟨pathOther, hpathOther, hother⟩ := Result.bind_eq_ok_iff.mp hother
  rw [eq_toText_of_nameOf hname, eq_toText_of_nameOf hother]
  intro htext
  obtain rfl := Path.toText_injective (isFile_of_pathAt hsuffix hpath)
    (isFile_of_pathAt hsuffix hpathOther) htext
  exact hstem (ofText_eq_of_pathAt hpath hpathOther)

end Names

/-! ### Saving and loading -/

section Files

variable {graph : Graph} {files : Files} {stem name : String} {storage : Option String}

/-- Saving a graph changes no other file than its document and its weights, whether it succeeds or
not. -/
theorem find?_save_of_ne
    (hdocument : ∀ document, (Files.pathAt stem ".json" >>= Files.nameOf) = .ok document →
      name ≠ document)
    (hweights : ∀ weights, (Files.pathAt stem ".weights" >>= Files.nameOf) = .ok weights →
      name ≠ weights) :
    (graph.save files stem storage).1.find? name = files.find? name := by
  unfold Graph.save
  split
  · rfl
  · split
    · rfl
    case h_2 document hname =>
      have hkept (content : Content) : (files.insert document content).find? name =
          files.find? name := OrderedMap.find?_insert_of_ne _ (hdocument document hname) _
      dsimp only
      split
      · exact hkept _
      · split_ifs
        · exact hkept _
        · split
          · exact hkept _
          case h_2 weights hname =>
            exact (OrderedMap.find?_insert_of_ne _ (hweights weights hname) _).trans (hkept _)

/-- Loading a graph reads no other files than its document and its weights. -/
theorem load_congr {other : Files}
    (hdocument : ∀ document, (Files.pathAt stem ".json" >>= Files.nameOf) = .ok document →
      other.find? document = files.find? document)
    (hweights : ∀ weights, (Files.pathAt stem ".weights" >>= Files.nameOf) = .ok weights →
      other.find? weights = files.find? weights) :
    Graph.load other stem = Graph.load files stem := by
  unfold Graph.load
  cases hpath : Files.pathAt stem ".json" with
  | error err => rfl
  | ok path =>
    cases hname : Files.nameOf path with
    | error err => simp only [Result.ok_bind, hname]; rfl
    | ok document =>
      have hread : other.read document = files.read document := by
        unfold Files.read
        rw [hdocument document (Result.bind_eq_ok_iff.mpr ⟨path, hpath, hname⟩)]
      simp only [Result.ok_bind, hname, hread]
      cases hpathWeights : Files.pathAt stem ".weights" with
      | error err => rfl
      | ok path =>
        cases hnameWeights : Files.nameOf path with
        | error err => simp only [Result.ok_bind, hnameWeights]; rfl
        | ok weights =>
          have hfound := hweights weights
            (Result.bind_eq_ok_iff.mpr ⟨path, hpathWeights, hnameWeights⟩)
          simp only [Result.ok_bind, hnameWeights, hfound]

/-- A graph is loaded as it is, whatever is saved under other stems in between. -/
theorem load_save_of_ne {other : String} (hstem : Path.ofText other ≠ Path.ofText stem) :
    Graph.load (graph.save files other storage).1 stem = Graph.load files stem := by
  refine load_congr (fun document hdocument ↦ ?_) fun weights hweights ↦ ?_
  · exact find?_save_of_ne
      (fun changed hchanged ↦
        fileName_ne_of_stem_ne ⟨by decide, by decide⟩ hdocument hchanged hstem.symm)
      fun changed hchanged ↦ documentName_ne_weightsName hdocument hchanged
  · exact find?_save_of_ne
      (fun changed hchanged ↦ (documentName_ne_weightsName hchanged hweights).symm)
      fun changed hchanged ↦
        fileName_ne_of_stem_ne ⟨by decide, by decide⟩ hweights hchanged hstem.symm

end Files

end Handover
