import Handover.Proofs.Generation.Outcome
import Handover.Proofs.Text.Template

/-!
# Reference styles

The style says how references are written and nothing else. Where a body was written in one style,
writing it in another makes the same calls to the ledger and ends with the same references, each in
the other style (`Reference.restyle`), or with the error of the first reference that the other style
cannot write (`Restyles`, `restyles_writeBody`). So a module that is generated in one style is
generated in any accepted one exactly if each of its references can be written, and then with the
same decisions and statistics (`generate_restyled`). An accepted style may still fail, since
acceptance asks only that the field of the name occurs in both templates. It never fails when the
templates have that field and no other.
-/

set_option autoImplicit false
set_option relaxedAutoImplicit false

namespace Handover

variable {α β : Type} {style : ReferenceStyle}

/-! ### References in another style -/

namespace Reference

/-- How a reference is written in a style: an owned one by the template that its decision calls for,
and a borrowed one as its subject. -/
def rendering (style : ReferenceStyle) (reference : Reference) : Except Template.Flaw String :=
  if reference.owned then
    Template.fill (if reference.isMove then style.move else style.duplicate) reference.subject
  else .ok reference.subject

/-- A reference in another style. -/
def restyle (style : ReferenceStyle) (reference : Reference) : Result Reference := do
  return { reference with text := ← templateText (reference.rendering style) }

end Reference

section Restyle

variable {first : ReferenceStyle} {owned : Bool} {reference restyled : Reference}

theorem constantReference_restyle {name : String}
    (hreference : constantReference first name owned = .ok reference) :
    constantReference style name owned = reference.restyle style := by
  unfold constantReference at hreference ⊢
  cases owned with
  | false =>
    obtain rfl := Except.ok.inj hreference
    rfl
  | true =>
    obtain ⟨text, _, htext⟩ := Result.bind_eq_ok_iff.mp hreference
    obtain rfl := Except.ok.inj htext
    rfl

theorem variableReference_restyle {decision : Decision}
    (hreference : variableReference first decision owned = .ok reference) :
    variableReference style decision owned = reference.restyle style := by
  unfold variableReference at hreference ⊢
  cases owned with
  | false =>
    obtain rfl := Except.ok.inj hreference
    rfl
  | true =>
    obtain ⟨text, _, htext⟩ := Result.bind_eq_ok_iff.mp hreference
    obtain rfl := Except.ok.inj htext
    rfl

/-- Another style changes the text of a reference only. -/
theorem restyle_eq_ok (hrestyled : reference.restyle style = .ok restyled) :
    reference.rendering style = .ok restyled.text ∧
      restyled = { reference with text := restyled.text } := by
  obtain ⟨text, htext, heq⟩ := Result.bind_eq_ok_iff.mp hrestyled
  obtain rfl := Except.ok.inj heq
  refine ⟨?_, rfl⟩
  unfold templateText at htext
  split at htext
  next filled hfilled => rw [hfilled, ← Except.ok.inj htext]
  next => cases htext

end Restyle

/-- A reference can be written where both templates have the field of the name and no other, and its
text then holds its subject. -/
theorem exists_restyle (hduplicate : Template.holdsName style.duplicate = true)
    (hmove : Template.holdsName style.move = true) (reference : Reference) :
    ∃ restyled, reference.restyle style = .ok restyled ∧
      restyled.subject.toList <:+: restyled.text.toList := by
  have hrendering : ∃ text, reference.rendering style = .ok text ∧
      reference.subject.toList <:+: text.toList := by
    unfold Reference.rendering
    split_ifs
    · exact Template.exists_fill_of_holdsName hmove reference.subject
    · exact Template.exists_fill_of_holdsName hduplicate reference.subject
    · exact ⟨_, rfl, List.infix_rfl⟩
  obtain ⟨text, htext, hinfix⟩ := hrendering
  refine ⟨{ reference with text }, ?_, hinfix⟩
  rw [Reference.restyle, htext]
  rfl

/-! ### Writing in another style -/

/-- How a computation in another style ends when some references are to be written: with a value
made of them and a given ledger, or with the error of the first that cannot be written. -/
def Restyles (style : ReferenceStyle) (references : List Reference) (final : Ledger)
    (run : Except Error α × Ledger) (made : List Reference → α → Prop) : Prop :=
  match references.mapM (Reference.restyle style) with
  | .ok restyled => ∃ value, run = (.ok value, final) ∧ made restyled value
  | .error err => run.1 = .error err

section Composition

variable {references more : List Reference} {ledger middle final : Ledger}

theorem Restyles.mono {run : Except Error α × Ledger} {made others : List Reference → α → Prop}
    (hrun : Restyles style references final run made)
    (hmade : ∀ restyled value, made restyled value → others restyled value) :
    Restyles style references final run others := by
  unfold Restyles at hrun ⊢
  split at hrun
  · obtain ⟨value, hvalue, hrestyled⟩ := hrun
    exact ⟨value, hvalue, hmade _ _ hrestyled⟩
  · exact hrun

theorem Restyles.of_ok {run : Except Error α × Ledger} {made : List Reference → α → Prop}
    (hrun : Restyles style references final run made) {restyled : List Reference}
    (hrestyled : references.mapM (Reference.restyle style) = .ok restyled) :
    ∃ value, run = (.ok value, final) ∧ made restyled value := by
  rwa [Restyles, hrestyled] at hrun

theorem Restyles.of_error {run : Except Error α × Ledger} {made : List Reference → α → Prop}
    (hrun : Restyles style references final run made) {err : Error}
    (hfailed : references.mapM (Reference.restyle style) = .error err) : run.1 = .error err := by
  rwa [Restyles, hfailed] at hrun

/-- A computation that writes no reference. -/
theorem restyles_nil {run : Except Error α × Ledger} {made : List Reference → α → Prop} {value : α}
    (hrun : run = (.ok value, final)) (hmade : made [] value) :
    Restyles style [] final run made :=
  ⟨value, hrun, hmade⟩

/-- A computation that writes no reference may come first. -/
theorem Restyles.bind_same {computation : Bookkeeping α} {next : α → Bookkeeping β} {value : α}
    {made : List Reference → β → Prop} (hrun : computation ledger = (.ok value, middle))
    (hnext : Restyles style references final (next value middle) made) :
    Restyles style references final ((computation >>= next) ledger) made := by
  rwa [Stateful.run_bind, hrun]

/-- Two computations one after the other write the references of both. -/
theorem Restyles.bind {computation : Bookkeeping α} {next : α → Bookkeeping β}
    {made : List Reference → α → Prop} {others : List Reference → β → Prop}
    (hfirst : Restyles style references middle (computation ledger) made)
    (hnext : ∀ restyled value, made restyled value →
      Restyles style more final (next value middle) fun rest result ↦
        others (restyled ++ rest) result) :
    Restyles style (references ++ more) final ((computation >>= next) ledger) others := by
  unfold Restyles at hfirst ⊢
  rw [List.mapM_append, Stateful.run_bind]
  cases hrestyled : references.mapM (Reference.restyle style) with
  | error err =>
    rw [hrestyled] at hfirst
    rcases hrun : computation ledger with ⟨_ | _, reached⟩
    · rw [hrun] at hfirst
      obtain rfl := Except.error.inj hfirst
      rfl
    · rw [hrun] at hfirst
      cases hfirst
  | ok restyled =>
    rw [hrestyled] at hfirst
    obtain ⟨value, hrun, hmade⟩ := hfirst
    have hrest := hnext restyled value hmade
    unfold Restyles at hrest
    rw [hrun]
    cases hothers : more.mapM (Reference.restyle style) with
    | error err =>
      rw [hothers] at hrest
      exact hrest
    | ok rest =>
      rw [hothers] at hrest
      exact hrest

/-- Items that are written one after the other, where the values of the first style tell which
references there are. -/
theorem Restyles.mapM {items : List α} {call other : α → Bookkeeping β}
    {referencesOf : β → List Reference} {same : β → β → Prop}
    (hitem : ∀ item ∈ items, ∀ ledger value final, call item ledger = (.ok value, final) →
      Restyles style (referencesOf value) final (other item ledger) fun restyled result ↦
        referencesOf result = restyled ∧ same value result)
    {values : List β} (hvalues : items.mapM call ledger = (.ok values, final)) :
    Restyles style (values.flatMap referencesOf) final (items.mapM other ledger)
      fun restyled results ↦ results.flatMap referencesOf = restyled ∧
        List.Forall₂ same values results := by
  induction items generalizing ledger values with
  | nil =>
    cases hvalues
    exact restyles_nil rfl ⟨rfl, .nil⟩
  | cons item rest ih =>
    rw [List.mapM_cons] at hvalues ⊢
    obtain ⟨value, middle, hvalue, hvalues⟩ := Stateful.bind_eq_ok_iff.mp hvalues
    obtain ⟨others, reached, hothers, hvalues⟩ := Stateful.bind_eq_ok_iff.mp hvalues
    cases hvalues
    rw [List.flatMap_cons]
    refine (hitem item (List.mem_cons_self ..) ledger value middle hvalue).bind ?_
    rintro restyled result ⟨hreferences, hsame⟩
    have hrest := ih (fun item hmem ↦ hitem item (List.mem_cons_of_mem _ hmem)) hothers
    rw [← List.append_nil (others.flatMap referencesOf)]
    refine hrest.bind ?_
    rintro more results ⟨hmore, hall⟩
    refine restyles_nil rfl ⟨?_, .cons hsame hall⟩
    rw [List.flatMap_cons, hreferences, hmore, List.append_nil]

end Composition

/-! ### Expressions over other references -/

section Expressions

variable {ops : List Op} {graph : Graph} {references others : List String} {attrs : Attrs}
  {first second : Result α} {next nextOther : α → Result β}

/-- Two computations in sequence return when two others do. -/
theorem returns_bind_of_returns (hfirst : first.Returns → second.Returns)
    (hnext : ∀ value other, (next value).Returns → (nextOther other).Returns)
    (hreturns : (first >>= next).Returns) : (second >>= nextOther).Returns := by
  obtain ⟨final, hfinal⟩ := hreturns
  obtain ⟨value, hvalue, hrest⟩ := Result.bind_eq_ok_iff.mp hfinal
  exact (hfirst ⟨value, hvalue⟩).bind fun other _ ↦ hnext value other ⟨final, hrest⟩

/-- A computation that both have in common. -/
theorem returns_bind_of_same (hnext : ∀ value, (next value).Returns → (nextOther value).Returns)
    (hreturns : (first >>= next).Returns) : (first >>= nextOther).Returns := by
  obtain ⟨final, hfinal⟩ := hreturns
  obtain ⟨value, hvalue, hrest⟩ := Result.bind_eq_ok_iff.mp hfinal
  exact Result.Returns.bind ⟨value, hvalue⟩ fun other hother ↦ by
    obtain rfl := Except.ok.inj (hvalue.symm.trans hother)
    exact hnext value ⟨final, hrest⟩

variable (hlength : references.length = others.length)

include hlength

theorem operandAt_returns (slot : Nat) (hreturns : (operandAt references slot).Returns) :
    (operandAt others slot).Returns := by
  obtain ⟨text, htext⟩ := hreturns
  unfold operandAt at htext ⊢
  split at htext
  next reference hreference =>
    have hslot : slot < others.length :=
      hlength ▸ (List.getElem?_eq_some_iff.mp hreference).1
    rw [List.getElem?_eq_getElem hslot]
    exact ⟨_, rfl⟩
  next => cases htext

theorem otherArguments_returns (op : Op) (hreturns : (op.otherArguments references attrs).Returns) :
    (op.otherArguments others attrs).Returns := by
  unfold Op.otherArguments at hreturns ⊢
  split at hreturns
  iterate 4
    split at hreturns
    · exact hreturns
    · exact returns_bind_of_returns (operandAt_returns hlength 1) (fun _ _ _ ↦ ⟨_, rfl⟩) hreturns
  · exact hreturns
  · exact hreturns

theorem inPlaceForm_returns (op : Op) (hreturns : (op.inPlaceForm references attrs).Returns) :
    (op.inPlaceForm others attrs).Returns :=
  returns_bind_of_returns (operandAt_returns hlength 0) (fun _ _ ↦
    returns_bind_of_returns (otherArguments_returns hlength op) fun _ _ _ ↦ ⟨_, rfl⟩) hreturns

/-- An operator has a functional form over as many references. -/
theorem functionalForm_returns (op : Op) (hreturns : (op.functionalForm references attrs).Returns) :
    (op.functionalForm others attrs).Returns := by
  have hoperand := operandAt_returns hlength
  cases op with
  | linear => exact ⟨_, rfl⟩
  | cat =>
    exact returns_bind_of_same (fun _ ↦ returns_bind_of_same fun _ _ ↦ ⟨_, rfl⟩) hreturns
  | gelu => exact returns_bind_of_returns (hoperand 0) (fun _ _ _ ↦ ⟨_, rfl⟩) hreturns
  | max | sum | softmax =>
    exact returns_bind_of_returns (hoperand 0) (fun _ _ ↦
      returns_bind_of_same fun _ ↦ returns_bind_of_same fun _ _ ↦ ⟨_, rfl⟩) hreturns
  | matmul =>
    exact returns_bind_of_returns (hoperand 0) (fun _ _ ↦
      returns_bind_of_returns (hoperand 1) fun _ _ _ ↦ ⟨_, rfl⟩) hreturns
  | reshape =>
    exact returns_bind_of_returns (hoperand 0) (fun _ _ ↦
      returns_bind_of_same fun _ ↦ returns_bind_of_same fun _ ↦
        returns_bind_of_same fun _ _ ↦ ⟨_, rfl⟩) hreturns
  | transpose =>
    exact returns_bind_of_returns (hoperand 0) (fun _ _ ↦
      returns_bind_of_same fun _ ↦ returns_bind_of_same fun _ ↦
        returns_bind_of_same fun _ ↦ returns_bind_of_same fun _ _ ↦ ⟨_, rfl⟩) hreturns
  | split =>
    exact returns_bind_of_returns (hoperand 0) (fun _ _ ↦
      returns_bind_of_same fun _ ↦ returns_bind_of_same fun _ ↦
        returns_bind_of_same fun _ ↦ returns_bind_of_same fun _ ↦
          returns_bind_of_same fun _ ↦ returns_bind_of_same fun _ _ ↦ ⟨_, rfl⟩) hreturns
  | layernorm =>
    exact returns_bind_of_returns (hoperand 0) (fun _ _ ↦
      returns_bind_of_returns (hoperand 1) fun _ _ ↦
        returns_bind_of_returns (hoperand 2) fun _ _ ↦
          returns_bind_of_same fun _ _ ↦ ⟨_, rfl⟩) hreturns
  | _ =>
    exact returns_bind_of_returns (hoperand 0) (fun _ _ ↦
      returns_bind_of_returns (otherArguments_returns hlength _) fun _ _ _ ↦ ⟨_, rfl⟩) hreturns

/-- A node has an expression over as many references. -/
theorem nodeExpression_returns (node : Node)
    (hreturns : (nodeExpression ops graph node references).Returns) :
    (nodeExpression ops graph node others).Returns := by
  refine returns_bind_of_same (fun _ ↦ returns_bind_of_same fun owned hform ↦ ?_) hreturns
  split_ifs at hform ⊢
  · exact inPlaceForm_returns hlength node.op hform
  · exact functionalForm_returns hlength node.op hform

end Expressions

/-! ### Bodies in another style -/

section Bodies

variable {ops : List Op} {graph : Graph} {first : ReferenceStyle} {ledger final : Ledger}

theorem restyles_emitReference {site : Site} {name : String} {owned : Bool} {reference : Reference}
    (hemitted : emitReference graph first site name owned ledger = (.ok reference, final)) :
    Restyles style [reference] final (emitReference graph style site name owned ledger)
      fun restyled other ↦ [other] = restyled ∧ True := by
  have hrun : emitReference graph style site name owned ledger =
      (reference.restyle style, final) := by
    unfold emitReference at hemitted ⊢
    split_ifs at hemitted ⊢
    · have hledger : ledger = final := congrArg Prod.snd hemitted
      exact Prod.ext (constantReference_restyle (congrArg Prod.fst hemitted)) hledger
    · obtain ⟨decision, reached, hresolved, hwritten⟩ := Stateful.bind_eq_ok_iff.mp hemitted
      have hledger : reached = final := congrArg Prod.snd hwritten
      rw [Stateful.run_bind, hresolved]
      exact Prod.ext (variableReference_restyle (congrArg Prod.fst hwritten)) hledger
  unfold Restyles
  rw [hrun, List.mapM_cons, List.mapM_nil]
  cases reference.restyle style with
  | error err => rfl
  | ok restyled => exact ⟨restyled, rfl, rfl, trivial⟩

/-- References that are written one after the other. -/
theorem restyles_emitReferences {items : List α} {site : Site} {nameOf : α → String}
    {owns : α → Bool} {references : List Reference}
    (hemitted : items.mapM (fun item ↦ emitReference graph first site (nameOf item) (owns item))
      ledger = (.ok references, final)) :
    Restyles style references final
      (items.mapM (fun item ↦ emitReference graph style site (nameOf item) (owns item)) ledger)
      fun restyled others ↦ others = restyled ∧ references.length = others.length := by
  rw [← List.flatMap_singleton' references]
  refine (Restyles.mapM (fun _ _ _ _ _ ↦ restyles_emitReference) hemitted).mono ?_
  rintro restyled others ⟨rfl, hall⟩
  rw [List.flatMap_singleton', List.flatMap_singleton']
  exact ⟨rfl, hall.length_eq⟩

/-- Whether two statements are of one node and own the same. -/
def Statement.Matches (statement other : Statement) : Prop :=
  other.node = statement.node ∧ other.owned = statement.owned

theorem restyles_emitStatement {node : Node} {index : Nat} {statement : Statement}
    (hemitted : emitStatement ops graph first node index ledger = (.ok statement, final)) :
    Restyles style statement.references final (emitStatement ops graph style node index ledger)
      fun restyled other ↦ other.references = restyled ∧ statement.Matches other := by
  obtain ⟨owned, reached, howned, hemitted⟩ := Stateful.bind_eq_ok_iff.mp hemitted
  obtain ⟨references, written, hreferences, hemitted⟩ := Stateful.bind_eq_ok_iff.mp hemitted
  obtain ⟨expression, expressed, hexpression, hemitted⟩ := Stateful.bind_eq_ok_iff.mp hemitted
  have hreturns : (nodeExpression ops graph node (references.map Reference.text)).Returns :=
    ⟨expression, congrArg Prod.fst hexpression⟩
  cases hemitted
  refine Restyles.bind_same howned ?_
  rw [← List.append_nil references]
  refine (restyles_emitReferences hreferences).bind ?_
  rintro _ others ⟨rfl, hlength⟩
  have hlengths : (references.map Reference.text).length = (others.map Reference.text).length := by
    rw [List.length_map, List.length_map, hlength]
  obtain ⟨text, htext⟩ := nodeExpression_returns hlengths node hreturns
  have hledger : written = final := congrArg Prod.snd hexpression
  refine Restyles.bind_same (Prod.ext htext hledger) ?_
  exact restyles_nil rfl ⟨(List.append_nil _).symm, rfl, rfl⟩

/-- A body in another style makes the same calls to the ledger. -/
theorem restyles_emitBody {body : Body}
    (hemitted : emitBody ops graph first ledger = (.ok body, final)) :
    Restyles style body.references final (emitBody ops graph style ledger)
      fun restyled other ↦ other.references = restyled ∧
        List.Forall₂ Statement.Matches body.statements other.statements := by
  obtain ⟨statements, stated, hstatements, hemitted⟩ := Stateful.bind_eq_ok_iff.mp hemitted
  obtain ⟨returned, handed, hreturned, hemitted⟩ := Stateful.bind_eq_ok_iff.mp hemitted
  obtain ⟨_, released, hreleased, hemitted⟩ := Stateful.bind_eq_ok_iff.mp hemitted
  cases hemitted
  refine (Restyles.mapM (fun _ _ _ _ _ ↦ restyles_emitStatement) hstatements).bind ?_
  rintro _ others ⟨rfl, hall⟩
  dsimp only
  rw [← List.append_nil returned]
  refine (restyles_emitReferences hreturned).bind ?_
  rintro _ results ⟨rfl, _⟩
  refine Restyles.bind_same hreleased (restyles_nil rfl ⟨?_, hall⟩)
  rw [List.append_nil]
  rfl

theorem restyles_writeBody {body : Body}
    (hwritten : writeBody ops graph first ledger = (.ok body, final)) :
    Restyles style body.references final (writeBody ops graph style ledger)
      fun restyled other ↦ other.references = restyled ∧
        List.Forall₂ Statement.Matches body.statements other.statements := by
  obtain ⟨⟨⟩, built, hbuilt, hemitted⟩ := Stateful.bind_eq_ok_iff.mp hwritten
  exact Restyles.bind_same hbuilt (restyles_emitBody hemitted)

/-- What does not depend on the text of a reference is the same in another style. -/
theorem map_of_restyled {γ : Type} {read : Reference → γ}
    (hread : ∀ reference text, read { reference with text } = read reference)
    {references restyled : List Reference}
    (hrestyled : references.mapM (Reference.restyle style) = .ok restyled) :
    restyled.map read = references.map read := by
  have hall := Result.mapM_eq_ok_iff.mp hrestyled
  clear hrestyled
  induction hall with
  | nil => rfl
  | cons hhead _ ih => rw [List.map_cons, List.map_cons, ih, (restyle_eq_ok hhead).2, hread]

theorem map_owned_of_matches {statements others : List Statement}
    (hmatches : List.Forall₂ Statement.Matches statements others) :
    others.map Statement.owned = statements.map Statement.owned := by
  induction hmatches with
  | nil => rfl
  | cons hhead _ ih => rw [List.map_cons, List.map_cons, ih, hhead.2]

theorem length_filter_of_map {items others : List α} {chosen : α → Bool}
    (hmap : items.map chosen = others.map chosen) :
    (items.filter chosen).length = (others.filter chosen).length := by
  rw [← List.countP_eq_length_filter, ← List.countP_eq_length_filter]
  have hcount : ∀ list : List α, list.countP chosen = (list.map chosen).countP id := by
    intro list
    rw [List.countP_map]
    rfl
  rw [hcount, hcount, hmap]

/-- The decisions and the statistics of a body do not depend on its style. -/
theorem stats_of_restyled {body other : Body}
    (hreferences : body.references.mapM (Reference.restyle style) = .ok other.references)
    (hstatements : List.Forall₂ Statement.Matches body.statements other.statements) :
    other.decisions = body.decisions ∧ other.stats = body.stats := by
  have hdecision : other.references.map Reference.decision =
      body.references.map Reference.decision := map_of_restyled (fun _ _ ↦ rfl) hreferences
  have hclone : other.references.map Reference.isClone = body.references.map Reference.isClone :=
    map_of_restyled (fun _ _ ↦ rfl) hreferences
  have howned := map_owned_of_matches hstatements
  have hdecisions : other.decisions = body.decisions := by
    have hread : ∀ written : Body,
        written.decisions = (written.references.map Reference.decision).filterMap id := by
      intro written
      rw [List.filterMap_map]
      rfl
    rw [hread, hread, hdecision]
  refine ⟨hdecisions, ?_⟩
  rw [Body.stats, Body.stats, hdecisions, length_filter_of_map hclone, length_filter_of_map howned]

end Bodies

/-! ### Modules in another style -/

section Modules

variable {setup : Setup} {options : Options} {graph : Graph} {trace final : Trace}
  {generated : Generated}

/-- Assumes: a computation that fails on a fresh ledger. -/
theorem withLedger_of_error {computation : Bookkeeping α} {err : Error}
    (hrun : (computation (.fresh trace.events)).1 = .error err) :
    ∃ reached, Generating.withLedger computation trace = (.error err, reached) := by
  unfold Generating.withLedger
  rcases hcomputation : computation (.fresh trace.events) with ⟨_ | _, ledger⟩
  · rw [hcomputation] at hrun
    obtain rfl := Except.error.inj hrun
    exact ⟨_, rfl⟩
  · rw [hcomputation] at hrun
    cases hrun

/-- Whether there is a text of a module depends on its graph only. -/
theorem moduleText_returns {className : String} {body other : Body}
    (hreturns : (moduleText graph className body).Returns) :
    (moduleText graph className other).Returns :=
  returns_bind_of_returns (returns_bind_of_same fun _ _ ↦ ⟨_, rfl⟩) (fun _ _ _ ↦ ⟨_, rfl⟩) hreturns

/-- The outcome of a generation in another style. -/
theorem generateChecked_restyled {failOn : Option Severity}
    (hok : generateChecked setup options graph failOn trace = (.ok generated, final)) :
    ∃ body ledger, writeBody setup.ops graph options.style (.fresh trace.events) =
        (.ok body, ledger) ∧
      (∀ err, body.references.mapM (Reference.restyle style) = .error err →
        (generateChecked setup { options with style } graph failOn trace).1 = .error err) ∧
      ∀ restyled, body.references.mapM (Reference.restyle style) = .ok restyled →
        ∃ other source,
          writeBody setup.ops graph style (.fresh trace.events) = (.ok other, ledger) ∧
          other.references = restyled ∧
          (generateChecked setup { options with style } graph failOn trace).1 =
            .ok { generated with source } := by
  obtain ⟨before, checked, hbefore, hok⟩ := Stateful.bind_eq_ok_iff.mp hok
  obtain ⟨hevents, _⟩ := checkpointFindings_eq_ok hbefore
  obtain ⟨⟨body, ledger⟩, written, hwritten, hok⟩ := Stateful.bind_eq_ok_iff.mp hok
  obtain ⟨after, drained, hafter, hok⟩ := Stateful.bind_eq_ok_iff.mp hok
  obtain ⟨source, worded, hsource, hok⟩ := Stateful.bind_eq_ok_iff.mp hok
  obtain ⟨_, said, hsaid, hok⟩ := Stateful.bind_eq_ok_iff.mp hok
  cases hok
  have hrun := withLedger_eq_ok hwritten
  have hrestyles : Restyles style body.references ledger
      (writeBody setup.ops graph style (.fresh checked.events)) _ := restyles_writeBody hrun
  refine ⟨body, ledger, hevents ▸ hrun, ?_, ?_⟩
  · intro err hfailed
    obtain ⟨stopped, hstopped⟩ := withLedger_of_error (hrestyles.of_error hfailed)
    exact congrArg Prod.fst (Stateful.bind_eq_error_iff.mpr (.inr ⟨before, checked, hbefore,
      Stateful.bind_eq_error_iff.mpr (.inl hstopped)⟩))
  · intro restyled hrestyled
    obtain ⟨other, hother, rfl, hstatements⟩ := hrestyles.of_ok hrestyled
    obtain ⟨hdecisions, hstats⟩ := stats_of_restyled hrestyled hstatements
    obtain ⟨text, htext⟩ : (moduleText graph options.className other).Returns :=
      moduleText_returns ⟨source, congrArg Prod.fst hsource⟩
    have htexted : Generating.lift (moduleText graph options.className other) drained =
        (.ok text, drained) := Prod.ext htext rfl
    rw [withLedger_of_ok hrun] at hwritten
    obtain rfl := (Prod.mk.inj hwritten).2
    refine ⟨other, text, hevents ▸ hother, rfl, ?_⟩
    rw [← hdecisions, ← hstats]
    exact congrArg Prod.fst (Stateful.bind_eq_ok_iff.mpr ⟨before, checked, hbefore,
      Stateful.bind_eq_ok_iff.mpr ⟨(other, ledger), _, withLedger_of_ok hother,
        Stateful.bind_eq_ok_iff.mpr ⟨after, drained, hafter,
          Stateful.bind_eq_ok_iff.mpr ⟨text, drained, htexted, rfl⟩⟩⟩⟩)

/-- An accepted template whose braces are not doubled and that has no other field has that of the
name. -/
theorem holdsName_of_accepted (haccepted : ({ options with style } : Options).validate.Returns)
    (htemplates : ∀ template ∈ [style.duplicate, style.move],
      Template.isSimple template = true ∨ Template.holdsName template = true) :
    ∀ template ∈ [style.duplicate, style.move], Template.holdsName template = true := by
  obtain ⟨_, hfailOn⟩ := haccepted
  obtain ⟨hduplicate, hmove, _, _⟩ := accepted_of_validate hfailOn
  intro template hmem
  refine (htemplates template hmem).elim (fun hsimple ↦ ?_) id
  rcases List.mem_cons.mp hmem with rfl | hmem
  · exact Template.holdsName_of_isSimple hsimple hduplicate
  · rw [List.mem_singleton] at hmem
    exact Template.holdsName_of_isSimple hsimple (hmem ▸ hmove)

/-- A generation that succeeds passes its options and announces its graph, as it does in every other
accepted style. -/
theorem exists_generateChecked (hok : generate setup options graph trace = (.ok generated, final))
    (haccepted : ({ options with style } : Options).validate.Returns) :
    ∃ failOn start, start.events = trace.events ∧
      generateChecked setup options graph failOn start = (.ok generated, final) ∧
      generate setup { options with style } graph trace =
        generateChecked setup { options with style } graph failOn start := by
  obtain ⟨failOn, hfailOn⟩ := haccepted
  rw [generate_run] at hok
  rw [generate_run, hfailOn]
  cases hvalidate : options.validate with
  | error err =>
    rw [hvalidate] at hok
    cases hok
  | ok severity =>
    obtain rfl : severity = failOn := Except.ok.inj
      ((accepted_of_validate hvalidate).strictness.symm.trans
        (accepted_of_validate hfailOn).strictness)
    rw [hvalidate] at hok
    dsimp only at hok ⊢
    split_ifs at hok ⊢
    · cases hsummary : graph.summary with
      | error err =>
        rw [hsummary] at hok
        cases hok
      | ok summary =>
        rw [hsummary] at hok
        exact ⟨severity, _, events_say _, hok, rfl⟩
    · exact ⟨severity, trace, rfl, hok, rfl⟩

end Modules

/-- A module that is generated in one style is generated in any other accepted one, with the same
decisions and statistics, when each of its references can be written in the other style, and fails
with the error of the first reference that cannot. Where no brace of the templates is doubled and
they have no field but that of the name, or where they have this field and no other, all of them
can, and each text holds its subject. -/
theorem generate_restyled {setup : Setup} {options : Options} {graph : Graph} {trace : Trace}
    {generated : Generated} (hgenerated : (generate setup options graph trace).1 = .ok generated)
    {style : ReferenceStyle} (haccepted : ({ options with style } : Options).validate.Returns) :
    ∃ body ledger, writeBody setup.ops graph options.style (.fresh trace.events) =
        (.ok body, ledger) ∧
      (∀ err, body.references.mapM (Reference.restyle style) = .error err →
        (generate setup { options with style } graph trace).1 = .error err) ∧
      (∀ restyled, body.references.mapM (Reference.restyle style) = .ok restyled →
        ∃ other source,
          writeBody setup.ops graph style (.fresh trace.events) = (.ok other, ledger) ∧
          other.references = restyled ∧
          (generate setup { options with style } graph trace).1 =
            .ok { generated with source }) ∧
      ((∀ template ∈ [style.duplicate, style.move],
          Template.isSimple template = true ∨ Template.holdsName template = true) →
        ∃ restyled, body.references.mapM (Reference.restyle style) = .ok restyled ∧
          ∀ reference ∈ restyled, reference.subject.toList <:+: reference.text.toList) := by
  obtain ⟨failOn, start, hevents, hchecked, hother⟩ :=
    exists_generateChecked (Prod.ext hgenerated rfl) haccepted
  obtain ⟨body, ledger, hwritten, hfailed, hrestyled⟩ := generateChecked_restyled hchecked
  rw [hevents] at hwritten hrestyled
  rw [hother]
  refine ⟨body, ledger, hwritten, hfailed, hrestyled, fun htemplates ↦ ?_⟩
  have hholds := holdsName_of_accepted haccepted htemplates
  have hduplicate := hholds _ (List.mem_cons_self ..)
  have hmove := hholds _ (List.mem_cons_of_mem _ (List.mem_cons_self ..))
  obtain ⟨restyled, hall⟩ := Result.Returns.mapM fun reference (_ : reference ∈ body.references) ↦
    (exists_restyle hduplicate hmove reference).imp fun _ ↦ And.left
  refine ⟨restyled, hall, fun reference hreference ↦ ?_⟩
  obtain ⟨written, _, hwritten⟩ := Result.exists_of_mem_of_mapM hall hreference
  obtain ⟨other, hother, hinfix⟩ := exists_restyle hduplicate hmove written
  obtain rfl := Except.ok.inj (hwritten.symm.trans hother)
  exact hinfix

/-- The steps that build a graph which reads an input and a constant and returns the result and the
input. -/
def shiftedSteps : Result Graph := do
  let shape := [Attr.int 2]
  let graph ← Graph.addInput { name := "shifted" } "x:0" shape "float32"
  let graph ← graph.addTensor "w" shape "float32"
  let graph ← graph.addTensor "h" shape "float32"
  let graph ← graph.addTensor "y" shape "float32"
  let graph ← graph.addNode .add ["x:0", "w"] ["h"] {}
  let graph ← graph.addNode .relu ["h"] ["y"] {}
  return { graph with constants := ["w"], outputs := ["y", "x:0"] }

/-- A graph that shifts its input and keeps what is not negative. -/
def shifted : Graph := shiftedSteps.toOption.get rfl

/-- A style with a call around each reference, one of them with doubled braces. -/
def callingStyle : ReferenceStyle where
  duplicate := "copied(\x7bname\x7d)"
  move := "taken(\x7b\x7b\x7d\x7d, \x7bname\x7d)"

/-- The module of the graph in the style of calls. -/
theorem generate_restyled_shifted :
    ∃ generated source,
      (generate standardSetup { strictness := "none" } shifted {}).1 = .ok generated ∧
      ({ style := callingStyle, strictness := "none" } : Options).validate.Returns ∧
      (generate standardSetup { style := callingStyle, strictness := "none" } shifted {}).1 =
        .ok { generated with source } := by
  obtain ⟨generated, hgenerated⟩ :
      Result.Returns (generate standardSetup { strictness := "none" } shifted {}).1 :=
    Result.returns_of_isSome (by decide +kernel)
  have haccepted : ({ style := callingStyle, strictness := "none" } : Options).validate.Returns :=
    Result.returns_of_isSome (by decide +kernel)
  obtain ⟨body, _, _, _, hrestyled, hwritten⟩ := generate_restyled hgenerated haccepted
  obtain ⟨restyled, hreferences, _⟩ := hwritten (by decide +kernel)
  obtain ⟨_, source, _, _, hother⟩ := hrestyled restyled hreferences
  exact ⟨generated, source, hgenerated, haccepted, hother⟩

/-- A style that copies by a template whose field stands between doubled braces. -/
def bracedStyle : ReferenceStyle := { duplicate := "\x7b\x7bname\x7d\x7d" }

/-- A style that copies by a template which has another field too. -/
def placedStyle : ReferenceStyle := { duplicate := "\x7bname\x7d.to(\x7bdevice\x7d)" }

/-- Both styles are accepted. In the first the text of a copied reference does not hold its subject,
and in the second no module is generated for a graph that has one in the default style. -/
theorem accepted_styles_that_name_nothing :
    Result.Returns (generate standardSetup { strictness := "none" } shifted {}).1 ∧
      ({ style := bracedStyle, strictness := "none" } : Options).validate.Returns ∧
      ((writeBody Op.catalog shifted bracedStyle (.fresh none)).1.toOption.map fun body ↦
          body.returned.map fun reference ↦ (reference.subject, reference.text)) =
        some [("y", "y"), ("x_0", "\x7bname\x7d")] ∧
      ¬ "x_0".toList <:+: "\x7bname\x7d".toList ∧
      ({ style := placedStyle, strictness := "none" } : Options).validate.Returns ∧
      (Result.error? (generate standardSetup { style := placedStyle, strictness := "none" } shifted
        {}).1).bind Error.message? = some "'device'" :=
  ⟨Result.returns_of_isSome (by decide +kernel), Result.returns_of_isSome (by decide +kernel),
    by decide +kernel, by decide +kernel, Result.returns_of_isSome (by decide +kernel),
    by decide +kernel⟩

end Handover
