import Handover.Proofs.Check.Accepted
import Handover.Proofs.Generation.Faultless
import Handover.Proofs.Generation.ReachingDefinitions
import Handover.Proofs.Generation.Style
import Handover.Proofs.Text.Lines

/-!
# The layout of a module

A module is written line by line, and most texts of its graph cannot disturb that: names are checked
to be identifiers, and attribute values and shapes are written as literals. Some are written as they
are (`Graph.shownTexts`): the name of the graph, the element types of its constants, and the
dimensions that `TRANSPOSE` and `CAT` work on. The lines that were written are the lines of the
module exactly if each of these stands on one line, and the string at its head ends on the first
line exactly if the name of the graph does not end it (`module_layout`).
-/

set_option autoImplicit false
set_option relaxedAutoImplicit false

namespace Handover

open Text

/-! ### Texts that are written as they are -/

/-- The attributes of an operator that its expression shows as they are. -/
def Op.shownAttributes : Op → List String
  | transpose => ["dim0", "dim1"]
  | cat => ["dim"]
  | _ => []

/-- An operator that has an in-place form shows nothing as it is. -/
theorem Op.shownAttributes_of_hasInPlaceForm {op : Op} (hform : op.hasInPlaceForm = true) :
    op.shownAttributes = [] := by
  cases op <;> first | rfl | cases hform

/-- The texts among the attributes that the expression of an operator shows as they are. -/
def Op.shownTexts (op : Op) (attrs : Attrs) : List String :=
  op.shownAttributes.filterMap fun name ↦ (attrs.find? name).bind Attr.text?

/-- The texts of a graph that stand in its module as they are. -/
def Graph.shownTexts (graph : Graph) : List String :=
  graph.name :: (graph.constants.filterMap fun name ↦
      (graph.tensors.find? name).map TensorInfo.elementType) ++
    graph.nodes.flatMap fun node ↦ node.op.shownTexts node.attrs

theorem Graph.forall_mem_shownTexts {graph : Graph} {condition : String → Prop} :
    (∀ text ∈ graph.shownTexts, condition text) ↔ condition graph.name ∧
      (∀ name ∈ graph.constants,
        ∀ text ∈ (graph.tensors.find? name).map TensorInfo.elementType, condition text) ∧
      ∀ node ∈ graph.nodes, ∀ text ∈ node.op.shownTexts node.attrs, condition text := by
  rw [shownTexts, List.cons_append, List.forall_mem_cons, List.forall_mem_append,
    List.forall_mem_filterMap, List.forall_mem_flatMap]
  rfl

/-! ### Expressions -/

section Expressions

variable {references : List String} {attrs : Attrs}
  (hreferences : ∀ reference ∈ references, OneLine reference.toList)

theorem Op.oneLine_functionName (op : Op) : OneLine op.functionName.toList := by
  cases op <;> decide

include hreferences in
theorem oneLine_operandAt (slot : Nat) :
    (operandAt references slot).Ensures fun reference ↦ OneLine reference.toList := by
  unfold operandAt
  split
  next reference hreference =>
    exact Result.ensures_pure (hreferences _ (List.mem_of_getElem? hreference))
  next => exact Result.ensures_error _ _

include hreferences in
theorem oneLine_otherArguments (op : Op) :
    (op.otherArguments references attrs).Ensures fun others ↦
      ∀ other ∈ others, OneLine other.toList := by
  unfold Op.otherArguments
  split
  iterate 4
    split
    · exact .bind fun text htext ↦ Result.ensures_pure
        (List.forall_mem_singleton.mpr (Attr.oneLine_literal htext))
    · exact .bind fun other hother ↦ Result.ensures_pure
        (List.forall_mem_singleton.mpr (oneLine_operandAt hreferences 1 other hother))
  · exact .bind fun _ _ ↦ .bind fun text htext ↦ Result.ensures_pure
      (List.forall_mem_singleton.mpr (Attr.oneLine_literal htext))
  · exact Result.ensures_pure fun other hother ↦ absurd hother List.not_mem_nil

include hreferences in
theorem oneLine_inPlaceForm (op : Op) :
    (op.inPlaceForm references attrs).Ensures fun expression ↦ OneLine expression.toList := by
  refine .bind fun first hfirst ↦ .bind fun others hothers ↦ Result.ensures_pure ?_
  simp [isLineEnd, oneLine_operandAt hreferences 0 first hfirst, op.oneLine_functionName,
    oneLine_intercalate (oneLine_otherArguments hreferences op others hothers)]

theorem oneLine_display_of_get {name shown : String} {attr : Attr}
    (hattr : attrs.get name = .ok attr) (hshown : attr.display = .ok shown) :
    OneLine shown.toList ↔
      ∀ content ∈ (attrs.find? name).bind Attr.text?, OneLine content.toList := by
  unfold Attrs.get at hattr
  split at hattr
  next found hfound =>
    obtain rfl := Except.ok.inj hattr
    rw [hfound, Option.bind_some]
    exact Attr.oneLine_display hshown
  next => cases hattr

include hreferences in
/-- An expression is on one line when the texts are that it shows as they are. -/
theorem oneLine_functionalForm (op : Op) :
    (op.functionalForm references attrs).Ensures fun expression ↦
      (OneLine expression.toList ↔ ∀ text ∈ op.shownTexts attrs, OneLine text.toList) := by
  have hoperand := oneLine_operandAt hreferences
  have hall := oneLine_intercalate hreferences
  cases op with
  | linear =>
    exact Result.ensures_pure (by simp [isLineEnd, Op.shownTexts, Op.shownAttributes, hall])
  | gelu =>
    refine .bind fun first hfirst ↦ Result.ensures_pure ?_
    simp [isLineEnd, Op.shownTexts, Op.shownAttributes, hoperand 0 first hfirst]
  | max | sum =>
    refine .bind fun first hfirst ↦ .bind fun _ _ ↦ .bind fun axis haxis ↦
      Result.ensures_pure ?_
    cases keepsDimensions attrs <;>
      simp [isLineEnd, Op.shownTexts, Op.shownAttributes, hoperand 0 first hfirst,
        Attr.oneLine_literal haxis, Op.oneLine_functionName]
  | softmax =>
    refine .bind fun first hfirst ↦ .bind fun _ _ ↦ .bind fun axis haxis ↦
      Result.ensures_pure ?_
    simp [isLineEnd, Op.shownTexts, Op.shownAttributes, hoperand 0 first hfirst,
      Attr.oneLine_literal haxis]
  | cat =>
    refine .bind fun attr hattr ↦ .bind fun axis haxis ↦ Result.ensures_pure ?_
    simp [isLineEnd, Op.shownTexts, Op.shownAttributes, hall, oneLine_display_of_get hattr haxis]
  | matmul =>
    refine .bind fun left hleft ↦ .bind fun right hright ↦ Result.ensures_pure ?_
    simp [isLineEnd, Op.shownTexts, Op.shownAttributes, hoperand 0 left hleft,
      hoperand 1 right hright]
  | reshape =>
    refine .bind fun first hfirst ↦ .bind fun _ _ ↦ .bind fun _ _ ↦ .bind fun shape hshape ↦
      Result.ensures_pure ?_
    simp [isLineEnd, Op.shownTexts, Op.shownAttributes, hoperand 0 first hfirst,
      Attr.oneLine_literal hshape]
  | transpose =>
    refine .bind fun first hfirst ↦ .bind fun _ hone ↦ .bind fun one honeShown ↦
      .bind fun _ hother ↦ .bind fun other hotherShown ↦ Result.ensures_pure ?_
    simp [isLineEnd, Op.shownTexts, Op.shownAttributes, hoperand 0 first hfirst,
      oneLine_display_of_get hone honeShown, oneLine_display_of_get hother hotherShown, or_imp,
      forall_and]
  | split =>
    refine .bind fun first hfirst ↦ .bind fun _ _ ↦ .bind fun _ _ ↦ .bind fun sizes hsizes ↦
      .bind fun _ _ ↦ .bind fun _ _ ↦ .bind fun axis haxis ↦ Result.ensures_pure ?_
    simp [isLineEnd, Op.shownTexts, Op.shownAttributes, hoperand 0 first hfirst,
      Attr.oneLine_literal hsizes, Attr.oneLine_literal haxis]
  | layernorm =>
    refine .bind fun first hfirst ↦ .bind fun weight hweight ↦ .bind fun bias hbias ↦
      .bind fun floor hfloor ↦ Result.ensures_pure ?_
    simp [isLineEnd, Op.shownTexts, Op.shownAttributes, hoperand 0 first hfirst,
      hoperand 1 weight hweight, hoperand 2 bias hbias, Attr.oneLine_literal hfloor]
  | _ =>
    refine .bind fun first hfirst ↦ .bind fun others hothers ↦ Result.ensures_pure ?_
    have hlist : OneLine ([',', ' '].intercalate ((first :: others).map String.toList)) :=
      oneLine_intercalate (List.forall_mem_cons.mpr
        ⟨hoperand 0 first hfirst, oneLine_otherArguments hreferences _ others hothers⟩)
    rw [List.map_cons] at hlist
    simp [isLineEnd, Op.shownTexts, Op.shownAttributes, hlist, Op.oneLine_functionName]

include hreferences in
/-- The expression of a node is on one line when the texts are that it shows as they are. -/
theorem oneLine_nodeExpression (ops : List Op) (graph : Graph) (node : Node) :
    (nodeExpression ops graph node references).Ensures fun expression ↦
      (OneLine expression.toList ↔
        ∀ text ∈ node.op.shownTexts node.attrs, OneLine text.toList) := by
  refine .bind fun _ _ ↦ .bind fun owned _ ↦ ?_
  split_ifs with hinPlace
  · rw [Bool.and_eq_true, Bool.and_eq_true] at hinPlace
    intro expression hexpression
    refine iff_of_true (oneLine_inPlaceForm hreferences node.op expression hexpression) ?_
    rw [Op.shownTexts, Op.shownAttributes_of_hasInPlaceForm hinPlace.1.2]
    exact fun text htext ↦ absurd htext List.not_mem_nil
  · exact oneLine_functionalForm hreferences node.op

end Expressions

/-! ### Statements -/

section Statements

variable {ops : List Op} {graph : Graph} {later : List Use} {body : Body}

/-- In the default style the text of a reference adds at most a call to its subject. -/
theorem oneLine_text_of_rendering {reference : Reference}
    (hrendering : reference.rendering {} = .ok reference.text)
    (hsubject : OneLine reference.subject.toList) : OneLine reference.text.toList := by
  unfold Reference.rendering at hrendering
  split_ifs at hrendering
  · rw [Template.fill_name] at hrendering
    rwa [← Except.ok.inj hrendering]
  · rw [Template.fill_clone] at hrendering
    rw [← Except.ok.inj hrendering, String.toList_append, oneLine_append]
    exact ⟨hsubject, by decide⟩
  · rwa [← Except.ok.inj hrendering]

theorem oneLine_text {position : Int} {name : String} {owned : Bool} {reference : Reference}
    (hwritten : WrittenReference graph {} position name owned later reference)
    (husable : isUsableIdentifier (sanitize name) = true) : OneLine reference.text.toList := by
  have hname := oneLine_of_isUsableIdentifier husable
  unfold WrittenReference at hwritten
  split_ifs at hwritten
  · have hrestyled := (constantReference_restyle hwritten).symm.trans hwritten
    refine oneLine_text_of_rendering (restyle_eq_ok hrestyled).1 ?_
    rw [(constantReference_eq_ok hwritten).1, String.toList_append, oneLine_append]
    exact ⟨by decide, hname⟩
  · have hrestyled := (variableReference_restyle hwritten).symm.trans hwritten
    refine oneLine_text_of_rendering (restyle_eq_ok hrestyled).1 ?_
    rwa [(variableReference_eq_ok hwritten).1]

/-- Assumes: references that are written for slots whose names can be bound. -/
theorem WrittenReferences.oneLine {position : Int} {slots : List (String × Bool)}
    {references : List Reference}
    (hwritten : WrittenReferences graph {} position slots later references)
    (husable : ∀ slot ∈ slots, isUsableIdentifier (sanitize slot.1) = true) :
    ∀ text ∈ references.map Reference.text, OneLine text.toList := by
  rw [List.forall_mem_map]
  intro reference hreference
  obtain ⟨slot, hslot, _, hmade⟩ := hwritten.exists_of_mem hreference
  exact oneLine_text hmade (husable slot hslot)

/-- The statement of a node is on one line when the texts are that its expression shows as they
are. -/
theorem WrittenStatement.oneLine (hbindable : graph.Bindable) {node : Node}
    (hnode : node ∈ graph.nodes) {index : Nat} {statement : Statement}
    (hwritten : WrittenStatement ops graph {} node index later statement) :
    OneLine statement.line.toList ↔
      ∀ text ∈ node.op.shownTexts node.attrs, OneLine text.toList := by
  have hreferences := hwritten.references.oneLine fun slot hslot ↦
    hbindable.nodes node hnode slot.1 (.inl (map_fst_slots node statement.owned ▸
      List.mem_map_of_mem hslot))
  have htargets : ∀ target ∈ statement.targets, OneLine target.toList := by
    rw [Statement.targets, hwritten.node_eq, List.forall_mem_map]
    exact fun name hname ↦
      oneLine_of_isUsableIdentifier (hbindable.nodes node hnode name (.inr hname))
  have hexpression := oneLine_nodeExpression hreferences ops graph node _ hwritten.expression
  dsimp only at hexpression
  rw [← hexpression, Statement.line]
  split_ifs <;> simp [isLineEnd, oneLine_intercalate htargets]

/-- The lines of a body are on one line each when the texts are that its nodes show as they are. -/
theorem WrittenBody.oneLine (hbindable : graph.Bindable)
    (hwritten : WrittenBody ops graph {} later body) :
    (∀ line ∈ body.lines, OneLine line.toList) ↔
      ∀ node ∈ graph.nodes, ∀ text ∈ node.op.shownTexts node.attrs, OneLine text.toList := by
  have hreturned : OneLine body.returnLine.toList := by
    have hreferences := hwritten.returned.oneLine (by
      rw [List.forall_mem_map]
      exact fun name hname ↦ hbindable.roles name (.inr (.inr hname)))
    have hlist := oneLine_intercalate hreferences
    rw [List.map_map] at hlist
    unfold Body.returnLine
    split
    · decide
    · simp [isLineEnd, hlist]
  have hstatement : ∀ statement ∈ body.statements, OneLine statement.line.toList ↔
      ∀ text ∈ statement.node.op.shownTexts statement.node.attrs, OneLine text.toList := by
    intro statement hstatement
    obtain ⟨entry, hentry, _, hmade⟩ := hwritten.statements.exists_of_mem hstatement
    have hnode := List.mem_map_of_mem (f := Prod.fst) hentry
    rw [List.zipIdx_map_fst] at hnode
    rw [hmade.node_eq]
    exact hmade.oneLine hbindable hnode
  rw [Body.lines, List.forall_mem_append, List.forall_mem_map, List.forall_mem_singleton,
    ← hwritten.map_node, List.forall_mem_map]
  exact (and_iff_left hreturned).trans (forall₂_congr hstatement)

end Statements

/-! ### Modules -/

section Modules

variable {graph : Graph} {className : String} {body : Body} {lines : List String}

/-- The line of a constant is one line when its element type is. -/
theorem oneLine_bufferLine {name line : String} (hline : bufferLine graph name = .ok line) :
    OneLine line.toList ↔
      ∀ text ∈ (graph.tensors.find? name).map TensorInfo.elementType, OneLine text.toList := by
  obtain ⟨info, hinfo, hline⟩ := Result.bind_eq_ok_iff.mp hline
  obtain ⟨shape, hshape, hline⟩ := Result.bind_eq_ok_iff.mp hline
  obtain rfl := Except.ok.inj hline
  unfold Graph.tensor at hinfo
  split at hinfo
  next found hfound =>
    obtain rfl := Except.ok.inj hinfo
    simp [isLineEnd, indentation, oneLine_quote, Attr.oneLine_literal hshape, hfound]
  next => cases hinfo

theorem oneLine_headLines (hclass : isUsableIdentifier className = true) :
    (∀ line ∈ headLines graph className, OneLine line.toList) ↔ OneLine graph.name.toList := by
  simp [headLines, isLineEnd, indentation, oneLine_of_isUsableIdentifier hclass]

/-- The lines of a module are on one line each when the texts are that it shows as they are. -/
theorem oneLine_moduleLines {ops : List Op} {later : List Use} (hbindable : graph.Bindable)
    (hclass : isUsableIdentifier className = true)
    (hwritten : WrittenBody ops graph {} later body)
    (hlines : moduleLines graph className body = .ok lines) :
    (∀ line ∈ lines, OneLine line.toList) ↔ ∀ text ∈ graph.shownTexts, OneLine text.toList := by
  obtain ⟨bufferLines, hbuffers, hlines⟩ := Result.bind_eq_ok_iff.mp hlines
  obtain rfl := Except.ok.inj hlines
  have hconstants : (∀ line ∈ bufferLines, OneLine line.toList) ↔ ∀ name ∈ graph.constants,
      ∀ text ∈ (graph.tensors.find? name).map TensorInfo.elementType, OneLine text.toList := by
    constructor
    · intro hall name hname
      obtain ⟨line, hmem, hline⟩ := Result.exists_result_of_mem hbuffers hname
      exact (oneLine_bufferLine hline).mp (hall line hmem)
    · intro hall line hmem
      obtain ⟨name, hname, hline⟩ := Result.exists_of_mem_of_mapM hbuffers hmem
      exact (oneLine_bufferLine hline).mpr (hall name hname)
  have hparameters : ∀ parameter ∈ parameters graph, OneLine parameter.toList := by
    rw [parameters, List.forall_mem_cons, List.forall_mem_map]
    exact ⟨by decide, fun name hname ↦
      oneLine_of_isUsableIdentifier (hbindable.roles name (.inl hname))⟩
  have hbody : (∀ line ∈ body.lines.map (indentation ++ indentation ++ ·), OneLine line.toList) ↔
      ∀ line ∈ body.lines, OneLine line.toList := by
    rw [List.forall_mem_map]
    simp [isLineEnd, indentation]
  have hsignature : ∀ line ∈ ["", indentation ++ "def forward(" ++
      ", ".intercalate (parameters graph) ++ "):"], OneLine line.toList := by
    simp [isLineEnd, indentation, oneLine_intercalate hparameters]
  rw [List.forall_mem_append, List.forall_mem_append, List.forall_mem_append, hbody,
    oneLine_headLines hclass, hconstants, hwritten.oneLine hbindable, and_iff_left hsignature,
    and_assoc, Graph.forall_mem_shownTexts]

/-- The first line of a module names its graph. -/
theorem eq_cons_of_moduleLines (hlines : moduleLines graph className body = .ok lines) :
    lines = ("\"\"\"Generated forward pass for graph '" ++ graph.name ++ "'.\"\"\"") ::
      lines.tail := by
  obtain ⟨bufferLines, _, hlines⟩ := Result.bind_eq_ok_iff.mp hlines
  obtain rfl := Except.ok.inj hlines
  rfl

/-- The text of a module is its lines. -/
theorem exists_moduleLines {source : String}
    (hsource : moduleText graph className body = .ok source) :
    ∃ lines, moduleLines graph className body = .ok lines ∧
      source.toList = writeLines (lines.map String.toList) := by
  obtain ⟨lines, hlines, hsource⟩ := Result.bind_eq_ok_iff.mp hsource
  refine ⟨lines, hlines, ?_⟩
  rw [← Except.ok.inj hsource, toList_intercalate_lines]
  rw [eq_cons_of_moduleLines hlines]
  exact List.cons_ne_nil _ _

theorem length_moduleLines (hnodes : body.statements.map Statement.node = graph.nodes)
    (hlines : moduleLines graph className body = .ok lines) :
    lines.length = 12 + graph.constants.length + graph.nodes.length := by
  obtain ⟨bufferLines, hbuffers, hlines⟩ := Result.bind_eq_ok_iff.mp hlines
  obtain rfl := Except.ok.inj hlines
  have hlength := (Result.mapM_eq_ok_iff.mp hbuffers).length_eq
  simp only [headLines, Body.lines, List.length_append, List.length_map, List.length_cons,
    List.length_nil, ← hnodes, ← hlength]
  omega

end Modules

/-! ### The string at the head -/

namespace Text

/-- How far a reader of a long string has come to its end: past some double quotes in a row, or past
a backslash, which takes the next character along. -/
inductive LongStringState
  | quotes (count : Nat)
  | escaped

/-- Where the reader is after one more character, unless the string ends with it. -/
def LongStringState.next? : LongStringState → Char → Option LongStringState
  | escaped, _ => some (quotes 0)
  | quotes count, c =>
    if c = '\\' then some escaped
    else if c = '\x22' then if count = 2 then none else some (quotes (count + 1))
    else some (quotes 0)

/-- What follows a long string, if it ends, read from inside of it. -/
def afterLongString (state : LongStringState) : List Char → Option (List Char)
  | [] => none
  | c :: rest =>
    match state.next? c with
    | some next => afterLongString next rest
    | none => some rest

/-- What follows the long string that a text begins with. -/
def afterHeadString : List Char → Option (List Char)
  | '\x22' :: '\x22' :: '\x22' :: rest => afterLongString (.quotes 0) rest
  | _ => none

/-- A text by itself ends the long string that it stands in. -/
def EndsLongString (text : List Char) : Prop := afterLongString (.quotes 0) text ≠ none
deriving Decidable

section LongStrings

variable {state : LongStringState} {text after : List Char}

/-- A string that has ended stays so. -/
theorem afterLongString_append_of_some (hends : afterLongString state text = some after)
    (rest : List Char) : afterLongString state (text ++ rest) = some (after ++ rest) := by
  induction text generalizing state with
  | nil => cases hends
  | cons c text ih =>
    rw [afterLongString] at hends
    rw [List.cons_append, afterLongString]
    cases hnext : state.next? c with
    | none =>
      rw [hnext] at hends
      rw [← Option.some.inj hends]
    | some next =>
      rw [hnext] at hends
      exact ih hends

/-- A reader in a string that has not ended goes on from some state. -/
theorem exists_state_of_none (hopen : afterLongString state text = none) :
    ∃ reached, ∀ rest, afterLongString state (text ++ rest) = afterLongString reached rest := by
  induction text generalizing state with
  | nil => exact ⟨state, fun _ ↦ rfl⟩
  | cons c text ih =>
    rw [afterLongString] at hopen
    cases hnext : state.next? c with
    | none =>
      rw [hnext] at hopen
      cases hopen
    | some next =>
      rw [hnext] at hopen
      obtain ⟨reached, hreached⟩ := ih hopen
      refine ⟨reached, fun rest ↦ ?_⟩
      rw [List.cons_append, afterLongString, hnext]
      exact hreached rest

/-- A quote and a point leave no state in which three double quotes would not end the string. -/
theorem afterLongString_closing (state : LongStringState) (rest : List Char) :
    afterLongString state ("'.\"\"\"".toList ++ rest) = some rest := by
  cases state <;> rfl

end LongStrings

end Text

/-- The string at the head of a module ends where it was written to end exactly if the name of the
graph does not end it. -/
theorem afterHeadString_iff (name : String) (rest : List Char) :
    afterHeadString
        (("\"\"\"Generated forward pass for graph '" ++ name ++ "'.\"\"\"").toList ++ rest) =
      some rest ↔ ¬ EndsLongString name.toList := by
  have hhead : afterHeadString
      (("\"\"\"Generated forward pass for graph '" ++ name ++ "'.\"\"\"").toList ++ rest) =
      afterLongString (.quotes 0) (name.toList ++ ("'.\"\"\"".toList ++ rest)) := by
    rw [String.toList_append, String.toList_append, List.append_assoc, List.append_assoc]
    rfl
  rw [hhead, EndsLongString, not_not]
  constructor
  · intro hclosed
    by_contra hends
    obtain ⟨after, hafter⟩ := Option.ne_none_iff_exists'.mp hends
    rw [afterLongString_append_of_some hafter] at hclosed
    have hlength := congrArg List.length (Option.some.inj hclosed)
    simp only [List.length_append] at hlength
    have hquotes : 0 < "'.\"\"\"".toList.length := by decide
    omega
  · intro hopen
    obtain ⟨reached, hreached⟩ := exists_state_of_none hopen
    rw [hreached, afterLongString_closing]

/-! ### Generated modules -/

section Generated

/-- A module that is generated from a graph that passes its checks, in the default style, is written
as one line for each constant and one for each node among twelve others. The lines that were written
are the lines of its text exactly if every text that it shows as it is stands on one line, and the
string at its head ends on the first of them exactly if the name of the graph does not end it. -/
theorem module_layout {setup : Setup} {options : Options} {graph : Graph} {trace : Trace}
    {generated : Generated}
    (hchecks : (standardChecks setup.ops).onGraph ⊆ setup.checks.onGraph)
    (hstrictness : options.strictness = "normal" ∨ options.strictness = "strict")
    (hstyle : options.style = {})
    (hgenerated : (generate setup options graph trace).1 = .ok generated) :
    ∃ body ledger lines,
      writeBody setup.ops graph options.style (.fresh trace.events) = (.ok body, ledger) ∧
      body.statements.map Statement.node = graph.nodes ∧
      moduleLines graph options.className body = .ok lines ∧
      lines.length = 12 + graph.constants.length + graph.nodes.length ∧
      generated.source.toList = writeLines (lines.map String.toList) ∧
      (generated.source.toList.splitOnP isLineEnd = lines.map String.toList ++ [[]] ↔
        ∀ text ∈ graph.shownTexts, OneLine text.toList) ∧
      (afterHeadString generated.source.toList =
          some ('\n' :: writeLines (lines.tail.map String.toList)) ↔
        ¬ EndsLongString graph.name.toList) := by
  obtain ⟨failOn, body, hvalidate, hmodule⟩ := generate_eq_ok (Prod.ext hgenerated rfl)
  obtain ⟨severity, rfl⟩ := exists_severity_of_validate hvalidate hstrictness
  obtain ⟨findings, hpassed⟩ := hmodule.checked severity rfl
  obtain ⟨ledger, hwritten⟩ := hmodule.written
  obtain ⟨_, _, hbody⟩ := writeBody_eq_ok _ _ _ hwritten
  obtain ⟨lines, hlines, hsource⟩ := exists_moduleLines hmodule.source
  refine ⟨body, ledger, lines, hwritten, hbody.map_node, hlines,
    length_moduleLines hbody.map_node hlines, hsource, ?_, ?_⟩
  · rw [hstyle] at hbody
    rw [hsource, splitOnP_writeLines_iff, List.forall_mem_map]
    exact oneLine_moduleLines (bindable_of_runOnGraph hchecks hpassed)
      (accepted_of_validate hvalidate).className hbody hlines
  · rw [hsource, eq_cons_of_moduleLines hlines, List.tail_cons, List.map_cons, writeLines,
      List.flatMap_cons, List.append_assoc]
    exact afterHeadString_iff graph.name _

/-- A graph that passes its checks has a module with the lines that are written for it. -/
theorem exists_generated_of_lines {graph : Graph} {lines : List String}
    (hchecks : ((standardChecks Op.catalog).runOnGraph .preCodegen graph (some .error)
      (some graph.name)).toOption.isSome = true)
    (hlines : ((writeBody Op.catalog graph {} (.fresh none)).1 >>=
      moduleLines graph "Model").toOption = some lines) :
    ∃ generated, (generate standardSetup {} graph {}).1 = .ok generated ∧
      generated.source.toList = writeLines (lines.map String.toList) := by
  have hvalidate : Options.validate {} = .ok (some .error) :=
    Result.eq_ok_of_toOption_eq_some (by decide +kernel)
  obtain ⟨findings, hfindings⟩ := Result.returns_of_isSome hchecks
  obtain ⟨body, hbody, hlines⟩ :=
    Result.bind_eq_ok_iff.mp (Result.eq_ok_of_toOption_eq_some hlines)
  obtain ⟨drained, hdrained⟩ := Stateful.exists_state_of_fst hbody
  obtain ⟨generated, hgenerated⟩ : ∃ generated, (generate standardSetup {} graph {}).1 =
      .ok generated :=
    exists_generated_of_checks hvalidate rfl hfindings hdrained
      (Result.bind_eq_ok_iff.mpr ⟨lines, hlines, rfl⟩)
  obtain ⟨_, written, _, hmodule⟩ := generate_eq_ok (Prod.ext hgenerated rfl)
  obtain ⟨ledger, hwritten⟩ := hmodule.written
  obtain rfl : written = body :=
    Except.ok.inj ((congrArg Prod.fst hwritten).symm.trans hbody)
  obtain ⟨others, hothers, hsource⟩ := exists_moduleLines hmodule.source
  obtain rfl := Except.ok.inj (hothers.symm.trans hlines)
  exact ⟨generated, hgenerated, hsource⟩

/-- A module is generated from a graph that passes its checks and has lines. -/
theorem returns_generate_of_lines {graph : Graph}
    (hchecks : ((standardChecks Op.catalog).runOnGraph .preCodegen graph (some .error)
      (some graph.name)).toOption.isSome = true)
    (hlines : ((writeBody Op.catalog graph {} (.fresh none)).1 >>=
      moduleLines graph "Model").toOption.isSome = true) :
    Result.Returns (generate standardSetup {} graph {}).1 := by
  obtain ⟨lines, hlines⟩ := Option.isSome_iff_exists.mp hlines
  obtain ⟨generated, hgenerated, _⟩ := exists_generated_of_lines hchecks hlines
  exact ⟨generated, hgenerated⟩

/-- The steps that build a graph with quotes in its name and line feeds in a shape and in an
attribute. -/
def quotedSteps : Result Graph := do
  let pair := [Attr.int 2, Attr.int 2]
  let graph ← Graph.addInput { name := "it's \"quoted\"" } "x:0" pair "float32"
  let graph ← graph.addTensor "w" [.text "two\nlines"] "float32"
  let graph ← graph.addTensor "h" pair "float32"
  let graph ← graph.addTensor "y" pair "float32"
  let graph ← graph.addNode .add ["x:0"] ["h"] ⟨[("scalar", .text "1\n2")]⟩
  let graph ← graph.addNode .transpose ["h"] ["y"] ⟨[("dim0", .int 0), ("dim1", .int 1)]⟩
  return { graph with constants := ["w"], outputs := ["y"] }

/-- A graph whose texts are quoted where they could end a line. -/
def quoted : Graph := quotedSteps.toOption.get rfl

/-- The module of the graph has fifteen lines, and the string at its head ends on the first. -/
theorem module_layout_quoted :
    ∃ (generated : Generated) (lines : List String),
      (generate standardSetup {} quoted {}).1 = .ok generated ∧ lines.length = 15 ∧
      generated.source.toList.splitOnP isLineEnd = lines.map String.toList ++ [[]] ∧
      afterHeadString generated.source.toList =
        some ('\n' :: writeLines (lines.tail.map String.toList)) := by
  obtain ⟨written, hwritten⟩ : ∃ lines, ((writeBody Op.catalog quoted {} (.fresh none)).1 >>=
      moduleLines quoted "Model").toOption = some lines :=
    Option.isSome_iff_exists.mp (by decide +kernel)
  obtain ⟨generated, hgenerated, _⟩ := exists_generated_of_lines (by decide +kernel) hwritten
  obtain ⟨_, _, lines, _, _, _, hlength, _, hsplit, hhead⟩ :=
    module_layout (List.Subset.refl _) (.inl rfl) rfl hgenerated
  exact ⟨generated, lines, hgenerated, hlength, hsplit.mpr (by decide +kernel),
    hhead.mpr (by decide +kernel)⟩

/-- The steps that build a graph whose name ends the string at the head of its module and begins a
line. -/
def injectedSteps : Result Graph := do
  let graph ← Graph.addInput { name := "\"\"\"\nimport os  # " } "x" [.int 2] "float32"
  let graph ← graph.addTensor "y" [.int 2] "float32"
  let graph ← graph.addNode .relu ["x"] ["y"] {}
  return { graph with outputs := ["y"] }

/-- A graph with one node whose name is a piece of program. -/
def injected : Graph := injectedSteps.toOption.get rfl

/-- Thirteen lines are written for the graph, but its text has fourteen, and the string at its head
ends before the second, which begins with the text of the name. -/
theorem injected_text :
    ∃ generated after, (generate standardSetup {} injected {}).1 = .ok generated ∧
      12 + injected.constants.length + injected.nodes.length = 13 ∧
      (generated.source.toList.splitOnP isLineEnd).length = 14 + 1 ∧
      afterHeadString generated.source.toList = some after ∧
      after.take 14 = "\nimport os  # ".toList := by
  have hshape : ((writeBody Op.catalog injected {} (.fresh none)).1 >>=
      moduleLines injected "Model").toOption.map (fun lines ↦
        (((writeLines (lines.map String.toList)).splitOnP isLineEnd).length,
          (afterHeadString (writeLines (lines.map String.toList))).map (List.take 14))) =
      some (14 + 1, some "\nimport os  # ".toList) := by decide +kernel
  obtain ⟨lines, hlines, hshape⟩ := Option.map_eq_some_iff.mp hshape
  obtain ⟨generated, hgenerated, hsource⟩ := exists_generated_of_lines (by decide +kernel) hlines
  rw [← hsource] at hshape
  obtain ⟨hlength, hhead⟩ := Prod.mk.inj hshape
  obtain ⟨after, hafter, htake⟩ := Option.map_eq_some_iff.mp hhead
  exact ⟨generated, after, hgenerated, rfl, hlength, hafter, htake⟩

end Generated

end Handover
