import Handover.Generation
import Mathlib.Data.List.Infix

/-!
# Filling templates

A template is cut into pieces before anything is filled in (`Template.pieces?`), and what it makes
of a name is put together from these (`fill_of_pieces`). Where the only fields are those of the
whole name, every name can be filled in (`fill_of_names`), and wherever there is such a field the
text holds the name (`isInfix_of_fill`). That the field occurs in a template promises neither: it
may stand between doubled braces, or next to a field that nothing fills. Where no brace is doubled
and there is no other field, it promises both (`holdsName_of_isSimple`).
-/

set_option autoImplicit false
set_option relaxedAutoImplicit false

namespace Handover.Template

variable {expand : List Char → Except Flaw (List Char)} {value text : List Char}
  {cut : List Piece} {fuel : Nat} {template name : String}

/-! ### Pieces -/

/-- The field that holds a name as it is. -/
def nameField : Field := ⟨"name".toList, none, []⟩

/-- The pieces of a text, of which there are at most as many as the fuel. -/
def cutPieces : Nat → List Char → Option (List Piece)
  | 0, _ => some []
  | fuel + 1, text =>
    match nextPiece text with
    | .ok none => some []
    | .ok (some (piece, rest)) => (cutPieces fuel rest).map (piece :: ·)
    | .error _ => none

/-- The pieces of a template, if its braces and fields are well formed. -/
def pieces? (template : String) : Option (List Piece) :=
  cutPieces (template.toList.length + 1) template.toList

/-- The text of one piece, where `expand` fills the fields inside formats. -/
def fillPiece (expand : List Char → Except Flaw (List Char)) (value : List Char) :
    Piece → Except Flaw (List Char)
  | .plain text => .ok text
  | .field field => fillField expand value field

/-- The texts of the pieces of a text, one after the other. -/
theorem fillPieces_of_cutPieces (hcut : cutPieces fuel text = some cut) :
    fillPieces expand value fuel text =
      (cut.mapM (fillPiece expand value)).map List.flatten := by
  induction fuel generalizing text cut with
  | zero =>
    obtain rfl := Option.some.inj hcut
    rfl
  | succ fuel ih =>
    rw [cutPieces] at hcut
    rw [fillPieces]
    split at hcut
    next hnext =>
      obtain rfl := Option.some.inj hcut
      rw [hnext]
      rfl
    next piece rest hnext =>
      obtain ⟨others, hrest, rfl⟩ := Option.map_eq_some_iff.mp hcut
      rw [hnext, List.mapM_cons]
      cases piece with
      | plain plain =>
        dsimp only [bind, Except.bind, fillPiece]
        rw [ih hrest]
        cases others.mapM (fillPiece expand value) <;> rfl
      | field field =>
        dsimp only [bind, Except.bind, fillPiece]
        cases fillField expand value field with
        | error flaw => rfl
        | ok filled =>
          dsimp only
          rw [ih hrest]
          cases others.mapM (fillPiece expand value) <;> rfl
    next => cases hcut

/-- What a template makes of a name is put together from its pieces. -/
theorem fill_of_pieces (hcut : pieces? template = some cut) (name : String) :
    fill template name = (cut.mapM (fillPiece (fillToDepth name.toList 1) name.toList)).map
      fun texts ↦ String.ofList texts.flatten := by
  rw [fill, fillToDepth, fillPieces_of_cutPieces hcut]
  cases cut.mapM (fillPiece (fillToDepth name.toList 1) name.toList) <;> rfl

/-- A piece of a template that can be filled has its text among those of the pieces. -/
theorem exists_text_of_mem {texts : List (List Char)}
    (htexts : cut.mapM (fillPiece expand value) = .ok texts) {piece : Piece}
    (hpiece : piece ∈ cut) : ∃ text ∈ texts, fillPiece expand value piece = .ok text := by
  induction cut generalizing texts with
  | nil => cases hpiece
  | cons head rest ih =>
    rw [List.mapM_cons] at htexts
    cases hhead : fillPiece expand value head with
    | error flaw =>
      rw [hhead] at htexts
      cases htexts
    | ok first =>
      cases hrest : rest.mapM (fillPiece expand value) with
      | error flaw =>
        rw [hhead, hrest] at htexts
        cases htexts
      | ok others =>
        rw [hhead, hrest] at htexts
        obtain rfl := Except.ok.inj htexts
        rcases List.mem_cons.mp hpiece with rfl | hpiece
        · exact ⟨first, List.mem_cons_self .., hhead⟩
        · obtain ⟨text, htext, hfilled⟩ := ih hrest hpiece
          exact ⟨text, List.mem_cons_of_mem _ htext, hfilled⟩

/-! ### Fields of the whole name -/

/-- Whether a piece is text or the field of the whole name. -/
def Piece.isOfName : Piece → Bool
  | .plain _ => true
  | .field slot => slot = nameField

/-- What such a piece makes of a name. -/
def Piece.withName (value : List Char) : Piece → List Char
  | .plain text => text
  | .field _ => value

theorem fillField_nameField : fillField expand value nameField = .ok value := by
  show Except.ok (Format.apply {} value) = _
  rw [Format.apply]
  simp

/-- A template whose only fields are those of the whole name makes a text of every name. -/
theorem fill_of_names (hcut : pieces? template = some cut)
    (hnames : ∀ piece ∈ cut, piece.isOfName = true) (name : String) :
    fill template name = .ok (String.ofList (cut.flatMap (Piece.withName name.toList))) := by
  have htexts : cut.mapM (fillPiece (fillToDepth name.toList 1) name.toList) =
      .ok (cut.map (Piece.withName name.toList)) := by
    clear hcut
    induction cut with
    | nil => rfl
    | cons piece rest ih =>
      have hpiece : fillPiece (fillToDepth name.toList 1) name.toList piece =
          .ok (piece.withName name.toList) := by
        cases piece with
        | plain text => rfl
        | field field =>
          have hname := hnames _ (List.mem_cons_self ..)
          rw [Piece.isOfName, decide_eq_true_eq] at hname
          rw [hname]
          exact fillField_nameField
      rw [List.mapM_cons, hpiece,
        ih fun piece hmem ↦ hnames piece (List.mem_cons_of_mem _ hmem)]
      rfl
  rw [fill_of_pieces hcut, htexts, List.flatMap_def]
  rfl

/-- Wherever a template has a field of the whole name, the text that it makes of a name holds the
name. -/
theorem isInfix_of_fill (hcut : pieces? template = some cut) (hfield : .field nameField ∈ cut)
    {filled : String} (hfill : fill template name = .ok filled) :
    name.toList <:+: filled.toList := by
  rw [fill_of_pieces hcut] at hfill
  cases htexts : cut.mapM (fillPiece (fillToDepth name.toList 1) name.toList) with
  | error flaw =>
    rw [htexts] at hfill
    cases hfill
  | ok texts =>
    rw [htexts] at hfill
    obtain rfl := Except.ok.inj hfill
    obtain ⟨text, htext, hfilled⟩ := exists_text_of_mem htexts hfield
    obtain rfl := Except.ok.inj (fillField_nameField.symm.trans hfilled)
    rw [String.toList_ofList]
    exact List.infix_of_mem_flatten htext

/-- Whether a template has the field of the whole name and no other. -/
def holdsName (template : String) : Bool :=
  match pieces? template with
  | some cut => cut.all Piece.isOfName && cut.contains (.field nameField)
  | none => false

/-- Such a template makes of every name a text that holds the name. -/
theorem exists_fill_of_holdsName (hholds : holdsName template = true) (name : String) :
    ∃ filled, fill template name = .ok filled ∧ name.toList <:+: filled.toList := by
  unfold holdsName at hholds
  split at hholds
  next cut hcut =>
    rw [Bool.and_eq_true, List.all_eq_true, List.contains_iff_mem] at hholds
    have hfill := fill_of_names hcut hholds.1 name
    exact ⟨_, hfill, isInfix_of_fill hcut hholds.2 hfill⟩
  next => cases hholds

/-- The default template of a reference that leaves its value intact. -/
theorem fill_clone (name : String) :
    fill "\x7bname\x7d.clone()" name = .ok (name ++ ".clone()") := by
  have hcut : pieces? "\x7bname\x7d.clone()" = some (.field nameField ::
      ".clone()".toList.map fun c ↦ .plain [c]) := by decide
  rw [fill_of_names hcut (by decide), List.flatMap_cons, Piece.withName, String.ofList_append,
    String.ofList_toList]
  rfl

/-- The default template of a reference that hands its value over. -/
theorem fill_name (name : String) : fill "\x7bname\x7d" name = .ok name := by
  have hcut : pieces? "\x7bname\x7d" = some [.field nameField] := by decide
  rw [fill_of_names hcut (by decide), List.flatMap_singleton, Piece.withName, String.ofList_toList]

/-! ### Templates in which the field occurs -/

/-- Whether a piece is text without braces or the field of the whole name. -/
def Piece.isSimple : Piece → Bool
  | .plain text => !text.contains '\x7b' && !text.contains '\x7d'
  | .field slot => slot = nameField

/-- Whether no brace of a template is doubled and it has no field but that of the whole name. -/
def isSimple (template : String) : Bool :=
  match pieces? template with
  | some cut => cut.all Piece.isSimple
  | none => false

theorem Piece.isOfName_of_isSimple {piece : Piece} (hsimple : piece.isSimple = true) :
    piece.isOfName = true := by
  cases piece with
  | plain text => rfl
  | field field => exact hsimple

/-- The first piece of a text is its first character, one of two equal braces, or a field. -/
theorem nextPiece_cons {c : Char} {rest : List Char} {next : Option (Piece × List Char)}
    (hnext : nextPiece (c :: rest) = .ok next) :
    ∃ piece after, next = some (piece, after) ∧
      ((piece = .plain [c] ∧ after = rest ∧ c ≠ '\x7b') ∨
        (piece = .plain [c] ∧ (c = '\x7b' ∨ c = '\x7d')) ∨ ∃ slot, piece = .field slot) := by
  unfold nextPiece at hnext
  dsimp only at hnext
  by_cases hbrace : c = '\x7b' ∨ c = '\x7d'
  · rw [if_pos hbrace] at hnext
    cases rest with
    | nil => cases hnext
    | cons d rest =>
      dsimp only at hnext
      split_ifs at hnext
      · exact ⟨_, _, (Except.ok.inj hnext).symm, .inr (.inl ⟨rfl, hbrace⟩)⟩
      · cases hfield : takeField (d :: rest) with
        | error flaw =>
          rw [hfield] at hnext
          cases hnext
        | ok taken =>
          rw [hfield] at hnext
          exact ⟨_, _, (Except.ok.inj hnext).symm, .inr (.inr ⟨_, rfl⟩)⟩
  · rw [if_neg hbrace] at hnext
    exact ⟨_, _, (Except.ok.inj hnext).symm, .inl ⟨rfl, rfl, fun hopen ↦ hbrace (.inl hopen)⟩⟩

/-- A text that is cut into simple pieces without a field has no opening brace. -/
theorem not_mem_of_cutPieces (hfuel : text.length < fuel) (hcut : cutPieces fuel text = some cut)
    (hsimple : ∀ piece ∈ cut, piece.isSimple = true) (hfield : .field nameField ∉ cut) :
    '\x7b' ∉ text := by
  induction fuel generalizing text cut with
  | zero => exact absurd hfuel (Nat.not_lt_zero _)
  | succ fuel ih =>
    cases text with
    | nil => exact List.not_mem_nil
    | cons c rest =>
      rw [cutPieces] at hcut
      split at hcut
      next hnext =>
        obtain ⟨_, _, hsome, _⟩ := nextPiece_cons hnext
        cases hsome
      next hnext =>
        obtain ⟨others, hothers, rfl⟩ := Option.map_eq_some_iff.mp hcut
        have hhead := hsimple _ (List.mem_cons_self ..)
        obtain ⟨piece, after, hsome, hpiece⟩ := nextPiece_cons hnext
        cases hsome
        rcases hpiece with ⟨rfl, rfl, hopen⟩ | ⟨rfl, hbrace⟩ | ⟨slot, rfl⟩
        · have hrest := ih (Nat.lt_of_succ_lt_succ hfuel) hothers
            (fun piece hpiece ↦ hsimple piece (List.mem_cons_of_mem _ hpiece))
            fun hmem ↦ hfield (List.mem_cons_of_mem _ hmem)
          rw [List.mem_cons, not_or]
          exact ⟨Ne.symm hopen, hrest⟩
        · rcases hbrace with rfl | rfl <;> cases hhead
        · rw [Piece.isSimple, decide_eq_true_eq] at hhead
          exact absurd (hhead ▸ List.mem_cons_self ..) hfield
      next => cases hcut

/-- The characters of a text that occurs in another are in it. -/
theorem mem_of_occursIn {part : List Char} (hoccurs : occursIn part text = true) {c : Char}
    (hc : c ∈ part) : c ∈ text := by
  induction text with
  | nil =>
    rw [occursIn, List.isEmpty_iff] at hoccurs
    rwa [hoccurs] at hc
  | cons head rest ih =>
    rw [occursIn, Bool.or_eq_true] at hoccurs
    rcases hoccurs with hprefix | hlater
    · exact (List.isPrefixOf_iff_prefix.mp hprefix).subset hc
    · exact List.mem_cons_of_mem _ (ih hlater)

/-- A template in which the field occurs has that field when no brace is doubled and there is no
other. -/
theorem holdsName_of_isSimple (hsimple : isSimple template = true)
    (hoccurs : occursIn "\x7bname\x7d".toList template.toList = true) :
    holdsName template = true := by
  unfold isSimple at hsimple
  unfold holdsName
  split at hsimple
  next cut hcut =>
    rw [List.all_eq_true] at hsimple
    have hfield : .field nameField ∈ cut := by
      by_contra habsent
      exact not_mem_of_cutPieces (Nat.lt_succ_self _) hcut hsimple habsent
        (mem_of_occursIn hoccurs (by decide))
    rw [Bool.and_eq_true, List.all_eq_true, List.contains_iff_mem]
    exact ⟨fun piece hpiece ↦ Piece.isOfName_of_isSimple (hsimple piece hpiece), hfield⟩
  next => cases hsimple

end Handover.Template
