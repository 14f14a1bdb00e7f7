import Handover.Generation
import Handover.Proofs.Computation

/-!
# Plain errors

An error is plain when it is neither a refusal of the ledger nor the failure of a checkpoint
(`Error.IsPlain`). Every call that does not run the ledger or close a checkpoint fails with plain
errors only (`Result.Plain`): lookups in a graph, expressions, references, the text of a module
(`plain_moduleText`), and each of the checks that are registered from the start
(`plain_standardChecks`). So a refusal or a failed checkpoint in the outcome of a generation comes
from the ledger or from a checkpoint itself.
-/

set_option autoImplicit false
set_option relaxedAutoImplicit false

namespace Handover

/-- Whether an error is neither a refusal of the ledger nor the failure of a checkpoint. -/
def Error.IsPlain : Error → Prop
  | ledger _ | generation _ | check _ => False
  | _ => True

/-- Whether a call fails with plain errors only. -/
def Result.Plain {α : Type} (result : Result α) : Prop := ∀ err, result = .error err → err.IsPlain

section Rules

variable {α β : Type}

namespace Result

@[simp] theorem plain_ok (value : α) : Plain (.ok value) := fun err herr ↦ by cases herr

@[simp] theorem plain_pure (value : α) : Plain (pure value) := plain_ok value

@[simp] theorem plain_fails (flaw : Flaw) : Plain (fails flaw : Result α) := by
  intro err herr
  obtain rfl := Except.error.inj herr
  trivial

@[simp] theorem plain_complains (complaint : Complaint) :
    Plain (complains complaint : Result α) := by
  intro err herr
  obtain rfl := Except.error.inj herr
  trivial

@[simp] theorem plain_noName (name : String) : Plain (.error (.noName name) : Result α) := by
  intro err herr
  obtain rfl := Except.error.inj herr
  trivial

theorem Plain.bind {first : Result α} {next : α → Result β} (hfirst : first.Plain)
    (hnext : ∀ value, (next value).Plain) : (first >>= next).Plain := by
  intro err herr
  rcases bind_eq_error_iff.mp herr with herr | ⟨value, _, herr⟩
  · exact hfirst err herr
  · exact hnext value err herr

theorem Plain.ite {condition : Prop} [Decidable condition] {first second : Result α}
    (hfirst : first.Plain) (hsecond : second.Plain) :
    (if condition then first else second).Plain := by
  split_ifs
  · exact hfirst
  · exact hsecond

theorem Plain.mapM_of_mem {items : List α} {call : α → Result β}
    (hcall : ∀ item ∈ items, (call item).Plain) : (items.mapM call).Plain := by
  induction items with
  | nil => exact plain_ok []
  | cons head rest ih =>
    rw [List.mapM_cons]
    exact (hcall head (List.mem_cons_self ..)).bind fun _ ↦
      (ih fun item hitem ↦ hcall item (List.mem_cons_of_mem _ hitem)).bind fun _ ↦ plain_pure _

theorem Plain.mapM {items : List α} {call : α → Result β} (hcall : ∀ item, (call item).Plain) :
    (items.mapM call).Plain :=
  Plain.mapM_of_mem fun item _ ↦ hcall item

end Result

end Rules

open Result

/-! ### Lookups and attributes -/

section Lookups

variable (graph : Graph)

theorem plain_itemAt {α : Type} (items : List α) (index : Int) : Plain (itemAt items index) := by
  unfold itemAt
  split <;> simp

theorem plain_tensor (name : String) : Plain (graph.tensor name) := by
  unfold Graph.tensor
  split <;> simp

theorem plain_indexOf (id : Int) : Plain (graph.indexOf id) := by
  unfold Graph.indexOf
  split
  · exact plain_ok _
  · intro err herr
    obtain rfl := Except.error.inj herr
    trivial

theorem plain_node (id : Int) : Plain (graph.node id) :=
  (plain_indexOf graph id).bind fun _ ↦ plain_itemAt _ _

theorem plain_producers (name : String) : Plain (graph.producers name) :=
  Plain.mapM fun id ↦ plain_node graph id

theorem plain_get (attrs : Attrs) (name : String) : Plain (attrs.get name) := by
  unfold Attrs.get
  split <;> simp

theorem plain_elements (value : Attr) : Plain value.elements := by
  unfold Attr.elements
  split <;> simp

theorem plain_literal (value : Attr) : Plain value.literal :=
  Plain.ite (plain_ok _) (plain_fails _)

theorem plain_display (value : Attr) : Plain value.display := by
  unfold Attr.display
  split
  · exact plain_ok _
  · exact plain_literal _

theorem plain_toInteger (value : Attr) : Plain value.toInteger := by
  unfold Attr.toInteger
  split
  · exact plain_ok _
  · exact plain_ok _
  · unfold Attr.integerPart
    split <;> simp
  · split <;> simp
  · exact plain_fails _

theorem plain_toIntegers (value : Attr) : Plain value.toIntegers :=
  (plain_elements value).bind fun _ ↦ Plain.mapM plain_toInteger

end Lookups

/-! ### Expressions and references -/

section Expressions

variable (ops : List Op) (graph : Graph) (references : List String) (attrs : Attrs)

theorem plain_operandAt (slot : Nat) : Plain (operandAt references slot) := by
  unfold operandAt
  split <;> simp

theorem plain_otherArguments (op : Op) : Plain (op.otherArguments references attrs) := by
  unfold Op.otherArguments
  split
  iterate 4
    split
    · exact (plain_literal _).bind fun _ ↦ plain_pure _
    · exact (plain_operandAt _ _).bind fun _ ↦ plain_pure _
  · exact (plain_get _ _).bind fun _ ↦ (plain_literal _).bind fun _ ↦ plain_pure _
  · exact plain_ok _

theorem plain_inPlaceForm (op : Op) : Plain (op.inPlaceForm references attrs) :=
  (plain_operandAt _ _).bind fun _ ↦ (plain_otherArguments _ _ op).bind fun _ ↦ plain_pure _

theorem plain_functionalForm (op : Op) : Plain (op.functionalForm references attrs) := by
  have hfirst := plain_operandAt references 0
  have hattr := plain_get attrs
  have hliteral := plain_literal
  have hdisplay := plain_display
  cases op with
  | linear => exact plain_pure _
  | gelu => exact hfirst.bind fun _ ↦ plain_pure _
  | max | sum | softmax =>
    exact hfirst.bind fun _ ↦ (hattr _).bind fun _ ↦ (hliteral _).bind fun _ ↦ plain_pure _
  | cat => exact (hattr _).bind fun _ ↦ (hdisplay _).bind fun _ ↦ plain_pure _
  | matmul => exact hfirst.bind fun _ ↦ (plain_operandAt _ _).bind fun _ ↦ plain_pure _
  | reshape =>
    exact hfirst.bind fun _ ↦ (hattr _).bind fun _ ↦ (plain_toIntegers _).bind fun _ ↦
      (hliteral _).bind fun _ ↦ plain_pure _
  | transpose =>
    exact hfirst.bind fun _ ↦ (hattr _).bind fun _ ↦ (hdisplay _).bind fun _ ↦
      (hattr _).bind fun _ ↦ (hdisplay _).bind fun _ ↦ plain_pure _
  | split =>
    exact hfirst.bind fun _ ↦ (hattr _).bind fun _ ↦ (plain_toIntegers _).bind fun _ ↦
      (hliteral _).bind fun _ ↦ (hattr _).bind fun _ ↦ (plain_toInteger _).bind fun _ ↦
        (hliteral _).bind fun _ ↦ plain_pure _
  | layernorm =>
    exact hfirst.bind fun _ ↦ (plain_operandAt _ _).bind fun _ ↦ (plain_operandAt _ _).bind fun _ ↦
      (hliteral _).bind fun _ ↦ plain_pure _
  | _ =>
    exact hfirst.bind fun _ ↦ (plain_otherArguments _ _ _).bind fun _ ↦ plain_pure _

theorem plain_requireDefined (op : Op) : Plain (requireDefined ops op) := by
  unfold requireDefined
  refine Plain.ite (plain_ok _) ?_
  intro err herr
  obtain rfl := Except.error.inj herr
  trivial

theorem plain_ownsFirstInput (node : Node) : Plain (ownsFirstInput ops graph node) := by
  refine (plain_requireDefined _ _).bind fun _ ↦ ?_
  refine Plain.ite (plain_pure _) (Plain.ite (plain_pure _) ?_)
  split
  · exact (plain_tensor _ _).bind fun _ ↦ (plain_tensor _ _).bind fun _ ↦ plain_pure _
  · exact plain_pure _

theorem plain_nodeExpression (node : Node) :
    Plain (nodeExpression ops graph node references) := by
  refine (plain_requireDefined _ _).bind fun _ ↦ (plain_ownsFirstInput _ _ _).bind fun _ ↦ ?_
  exact Plain.ite (plain_inPlaceForm _ _ _) (plain_functionalForm _ _ _)

theorem plain_templateText (filled : Except Template.Flaw String) :
    Plain (templateText filled) := by
  unfold templateText
  split <;> simp

theorem plain_constantReference (style : ReferenceStyle) (name : String) (owned : Bool) :
    Plain (constantReference style name owned) :=
  Plain.ite ((plain_templateText _).bind fun _ ↦ plain_pure _) (plain_pure _)

theorem plain_variableReference (style : ReferenceStyle) (decision : Decision) (owned : Bool) :
    Plain (variableReference style decision owned) :=
  Plain.ite ((plain_templateText _).bind fun _ ↦ plain_pure _) (plain_pure _)

end Expressions

/-! ### Texts -/

section Texts

variable (graph : Graph)

theorem plain_summary : Plain graph.summary := by
  have hdescribe : ∀ name, Plain (graph.describe name) := fun name ↦
    (plain_tensor graph name).bind fun _ ↦ (Plain.mapM plain_display).bind fun _ ↦ plain_pure _
  exact (Plain.mapM hdescribe).bind fun _ ↦ (Plain.mapM hdescribe).bind fun _ ↦ plain_pure _

theorem plain_moduleText (className : String) (body : Body) :
    Plain (moduleText graph className body) := by
  have hbuffer : ∀ name, Plain (bufferLine graph name) := fun name ↦
    (plain_tensor graph name).bind fun _ ↦ (plain_literal _).bind fun _ ↦ plain_pure _
  exact Plain.bind ((Plain.mapM hbuffer).bind fun _ ↦ plain_pure _) fun _ ↦ plain_pure _

theorem plain_validate (options : Options) : Plain options.validate := by
  have hfield : ∀ label template, Plain (requireNameField label template) := fun _ _ ↦
    Plain.ite (plain_ok _) (plain_complains _)
  have hstrictness : Plain (failingSeverity options.strictness) :=
    Plain.ite (plain_ok _) (Plain.ite (plain_ok _) (Plain.ite (plain_ok _) (plain_complains _)))
  exact (hfield _ _).bind fun _ ↦ (hfield _ _).bind fun _ ↦
    Plain.ite ((plain_complains _).bind fun _ ↦ hstrictness) hstrictness

end Texts

/-! ### Checks -/

section Checks

variable (ops : List Op) (graph : Graph)

theorem plain_nodeFinding (node : Node) (message : String) :
    Plain (Structure.nodeFinding graph node message) :=
  (plain_indexOf graph _).bind fun _ ↦ plain_pure _

theorem plain_findingsFor {α : Type} (items : List α) (found : α → Bool)
    {report : α → Result Finding}
    (hreport : ∀ item, Plain (report item)) : Plain (Structure.findingsFor items found report) :=
  Plain.mapM hreport

theorem plain_registrations (node : Node) : Plain (Structure.registrations ops graph node) := by
  have hfindings : ∀ (items : List String) (found : String → Bool) (message : String → String),
      Plain (Structure.findingsFor items found fun name ↦
        Structure.nodeFinding graph node (message name)) :=
    fun _ _ _ ↦ plain_findingsFor _ _ fun _ ↦ plain_nodeFinding graph node _
  exact (hfindings _ _ _).bind fun _ ↦ (hfindings _ _ _).bind fun _ ↦
    (plain_findingsFor _ _ fun _ ↦ plain_nodeFinding graph node _).bind fun _ ↦ plain_pure _

theorem plain_boundRoles (role : String) (names : List String) :
    Plain (Structure.boundRoles graph role names) := by
  refine Plain.bind (Plain.mapM fun name ↦ (plain_producers graph name).bind fun producers ↦ ?_)
    fun _ ↦ plain_pure _
  split
  · exact plain_pure _
  · exact (plain_nodeFinding graph _ _).bind fun _ ↦ plain_pure _

theorem plain_outputRoles : Plain (Structure.outputRoles graph) := by
  refine Plain.bind (Plain.mapM fun name ↦ ?_) fun _ ↦ plain_pure _
  refine Plain.ite (plain_pure _) ((plain_producers graph name).bind fun producers ↦ ?_)
  exact Plain.ite (plain_pure _) (plain_pure _)

theorem plain_earlyReads (defined : List String) (nodes : List Node) :
    Plain (Structure.earlyReads graph defined nodes) := by
  induction nodes generalizing defined with
  | nil => exact plain_ok _
  | cons node rest ih =>
    exact (plain_findingsFor _ _ fun _ ↦ plain_nodeFinding graph node _).bind fun _ ↦
      (ih _).bind fun _ ↦ plain_pure _

theorem plain_itemCount (value : Attr) : Plain (Structure.itemCount value) := by
  unfold Structure.itemCount
  split
  · exact plain_ok _
  · exact (plain_elements _).bind fun _ ↦ plain_pure _

theorem plain_splitArity (node : Node) : Plain (Structure.splitArity graph node) := by
  unfold Structure.splitArity
  split
  · exact plain_pure _
  · exact (plain_itemCount _).bind fun _ ↦
      Plain.ite (plain_pure _) ((plain_nodeFinding graph node _).bind fun _ ↦ plain_pure _)

theorem plain_structure : Plain (Structure.findings ops graph) :=
  (Plain.mapM (plain_registrations ops graph)).bind fun _ ↦
    (plain_boundRoles graph _ _).bind fun _ ↦ (plain_boundRoles graph _ _).bind fun _ ↦
      (plain_outputRoles graph).bind fun _ ↦ (plain_earlyReads graph _ _).bind fun _ ↦
        (Plain.mapM (plain_splitArity graph)).bind fun _ ↦ plain_pure _

theorem plain_placedFinding (check : String) (severity : Severity) (node : Node)
    (message : String) : Plain (placedFinding graph check severity node message) :=
  (plain_indexOf graph _).bind fun _ ↦ plain_pure _

theorem plain_repeatedOutputs : Plain (repeatedOutputs graph) :=
  Plain.bind (Plain.mapM fun _ ↦ Plain.mapM fun _ ↦ plain_placedFinding graph _ _ _ _)
    fun _ ↦ plain_pure _

theorem plain_deadValues : Plain (deadValues graph) :=
  Plain.bind (Plain.mapM fun _ ↦ Plain.mapM fun _ ↦ plain_placedFinding graph _ _ _ _)
    fun _ ↦ plain_pure _

/-- The checks of a graph that are registered from the start fail with plain errors only. -/
theorem plain_standardChecks : ∀ check ∈ (standardChecks ops).onGraph, Plain (check.run graph) := by
  simp only [standardChecks, List.forall_mem_cons, List.not_mem_nil, false_implies, implies_true,
    and_true]
  exact ⟨plain_structure ops graph, plain_repeatedOutputs graph, plain_ok _, plain_deadValues graph⟩

end Checks

end Handover
