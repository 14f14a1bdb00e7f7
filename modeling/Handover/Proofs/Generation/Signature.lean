import Handover.Proofs.Check.Accepted
import Handover.Proofs.Generation.Layout
import Handover.Proofs.Graph.Additions
import Mathlib.Data.List.Nodup

/-!
# Signatures

A generated module declares a parameter for each input of its graph after `self`, and a buffer for
each constant (`Generated.Declares`). The checks keep different names apart, since their identifiers
are distinct and none is reserved, but no check looks for a name that has two roles or has one role
twice. So the identifiers that a module declares are distinct exactly when its inputs and constants
are listed once (`signature_distinct_iff`). They are when the roles come from the building calls
(`Graph.nodup_roles_after`), and need not be when they are assigned or read (`input_listed_twice`).
-/

set_option autoImplicit false
set_option relaxedAutoImplicit false

namespace Handover

open Text

/-! ### Names and identifiers -/

section Names

variable {graph : Graph}

/-- The check of identifier forms reports reserved forms. -/
theorem not_reserved_of_nameFindings (hnames : nameFindings graph = []) {name : String}
    (hname : graph.tensors.contains name = true) : sanitize name ∉ reservedNames := by
  rw [OrderedMap.contains_eq_true_iff] at hname
  have hfindings := (List.append_eq_nil_iff.mp
    (List.flatMap_eq_nil_iff.mp hnames _ (mem_groupByForm hname))).2
  unfold usabilityFindings at hfindings
  split_ifs at hfindings with _ hreserved
  rwa [List.contains_iff_mem] at hreserved

/-- What is known of the roles of a graph that passes its checks: different names with a role have
different identifiers, and none of these is `self`. -/
structure Graph.RolesApart (graph : Graph) : Prop where
  forms : ∀ name ∈ graph.inputs ++ graph.constants, ∀ other ∈ graph.inputs ++ graph.constants,
    sanitize name = sanitize other → name = other
  receiver : ∀ name ∈ graph.inputs ++ graph.constants, sanitize name ≠ "self"

/-- Assumes: checks that pass, among which are the standard ones. -/
theorem rolesApart_of_runOnGraph {ops : List Op} {checks : Checks}
    (hchecks : (standardChecks ops).onGraph ⊆ checks.onGraph) {severity : Severity}
    {graphName : Option String} {found : List Finding}
    (hpassed : checks.runOnGraph .preCodegen graph (some severity) graphName = .ok found) :
    graph.RolesApart := by
  have hclean : Structure.Clean graph :=
    clean_of_runOnGraph (hchecks (List.mem_cons_self ..)) hpassed
  have hnames : nameFindings graph = [] :=
    names_of_runOnGraph (hchecks (List.mem_of_getElem? (i := 2) rfl)) hpassed
  have hregistered : ∀ name ∈ graph.inputs ++ graph.constants,
      graph.tensors.contains name = true := by
    intro name hname
    exact hclean.registered name ((List.mem_append.mp hname).imp_right .inl)
  refine ⟨fun name hname other hother ↦
    eq_of_nameFindings hnames (hregistered name hname) (hregistered other hother), ?_⟩
  intro name hname hself
  refine not_reserved_of_nameFindings hnames (hregistered name hname) ?_
  -- the reserved names begin with the name of the receiver
  rw [hself]
  exact List.mem_cons_self ..

namespace Graph.RolesApart

variable (hapart : graph.RolesApart)

include hapart

/-- The identifiers of some names with a role are distinct exactly when the names are. -/
theorem nodup_map_iff {names : List String} (hroles : names ⊆ graph.inputs ++ graph.constants) :
    (names.map sanitize).Nodup ↔ names.Nodup := by
  refine ⟨List.Nodup.of_map sanitize, fun hnodup ↦ hnodup.map_on ?_⟩
  exact fun name hname other hother ↦ hapart.forms name (hroles hname) other (hroles hother)

theorem nodup_parameters_iff : (parameters graph).Nodup ↔ graph.inputs.Nodup := by
  have hself : "self" ∉ graph.inputs.map sanitize := by
    intro hself
    obtain ⟨name, hname, hident⟩ := List.mem_map.mp hself
    exact hapart.receiver name (List.mem_append_left _ hname) hident
  rw [parameters, List.nodup_cons, and_iff_right hself,
    hapart.nodup_map_iff (List.subset_append_left _ _)]

theorem nodup_buffers_iff : (buffers graph).Nodup ↔ graph.constants.Nodup :=
  hapart.nodup_map_iff (List.subset_append_right _ _)

theorem disjoint_iff :
    (parameters graph).Disjoint (buffers graph) ↔ graph.inputs.Disjoint graph.constants := by
  constructor
  · intro hdisjoint name hinput hconstant
    exact hdisjoint (List.mem_cons_of_mem _ (List.mem_map_of_mem hinput))
      (List.mem_map_of_mem hconstant)
  · intro hdisjoint ident hparameter hbuffer
    obtain ⟨constant, hconstant, rfl⟩ := List.mem_map.mp hbuffer
    rcases List.mem_cons.mp hparameter with hself | hparameter
    · exact hapart.receiver constant (List.mem_append_right _ hconstant) hself
    · obtain ⟨name, hinput, hident⟩ := List.mem_map.mp hparameter
      have hsame := hapart.forms name (List.mem_append_left _ hinput) constant
        (List.mem_append_right _ hconstant) hident
      exact hdisjoint hinput (hsame ▸ hconstant)

end Graph.RolesApart

end Names

/-! ### Roles that are given by the building calls -/

namespace Graph

/-- Whether no name has two roles or has one role twice, among registered names. -/
structure RolesOnce (graph : Graph) : Prop where
  nodup : (graph.inputs ++ graph.constants).Nodup
  registered : ∀ name ∈ graph.inputs ++ graph.constants, graph.tensors.contains name = true

section Building

variable {graph next : Graph} {name : String}

/-- A role may be given to a name that was not registered before. -/
theorem RolesOnce.enter (honce : graph.RolesOnce) (hnew : graph.tensors.contains name = false)
    (hroles : (next.inputs ++ next.constants).Perm (name :: (graph.inputs ++ graph.constants)))
    (hkept : ∀ other, other = name ∨ graph.tensors.contains other = true →
      next.tensors.contains other = true) : next.RolesOnce := by
  refine ⟨hroles.nodup_iff.mpr (List.nodup_cons.mpr ⟨fun hname ↦ ?_, honce.nodup⟩), ?_⟩
  · rw [honce.registered name hname] at hnew
    cases hnew
  · intro other hother
    refine hkept other ((List.mem_cons.mp (hroles.mem_iff.mp hother)).imp_right ?_)
    exact honce.registered other

theorem RolesOnce.apply (honce : graph.RolesOnce) (addition : Addition) :
    (addition.apply graph).Ensures RolesOnce := by
  intro next hnext
  cases addition with
  | tensor name shape elementType =>
    obtain rfl := addTensor_eq_ok hnext
    exact ⟨honce.nodup, fun other hother ↦
      contains_insert_of_contains (honce.registered other hother) _ _⟩
  | input name shape elementType =>
    obtain ⟨extended, hextended, hnext⟩ := Result.bind_eq_ok_iff.mp hnext
    obtain rfl := Except.ok.inj hnext
    have hnew := not_contains_of_addTensor hextended
    obtain rfl := addTensor_eq_ok hextended
    refine honce.enter hnew ?_ fun other hother ↦ (OrderedMap.contains_insert ..).mpr hother
    show ((graph.inputs ++ [name]) ++ graph.constants).Perm _
    rw [List.append_assoc]
    exact List.perm_middle
  | constant name data =>
    obtain ⟨extended, hextended, hnext⟩ := Result.bind_eq_ok_iff.mp hnext
    obtain rfl := Except.ok.inj hnext
    have hnew := not_contains_of_addTensor hextended
    obtain rfl := addTensor_eq_ok hextended
    refine honce.enter hnew ?_ fun other hother ↦
      contains_insert_of_contains ((OrderedMap.contains_insert ..).mpr hother) _ _
    show (graph.inputs ++ (graph.constants ++ [name])).Perm _
    rw [← List.append_assoc]
    exact List.perm_append_singleton ..
  | node op inputs outputs attrs =>
    obtain ⟨-, -, rfl⟩ := addNode_eq_ok_iff.mp hnext
    exact ⟨honce.nodup, honce.registered⟩

theorem RolesOnce.after (honce : graph.RolesOnce) (hbuilt : Built graph)
    (additions : List Addition) : (graph.after additions).RolesOnce := by
  induction additions generalizing graph with
  | nil => exact honce
  | cons addition rest ih =>
    refine ih ?_ (Addition.built_update hbuilt addition)
    show (addition.update graph).2.RolesOnce
    rw [Addition.update_eq hbuilt]
    cases hnext : addition.apply graph with
    | ok next => exact honce.apply addition next hnext
    | error err =>
      show (addition.afterRefusal graph).RolesOnce
      rw [Addition.afterRefusal_eq hnext]
      split_ifs
      · exact ⟨honce.nodup, honce.registered⟩
      · exact honce

/-- After building calls that begin with an empty graph, refused ones among them, the inputs and the
constants are different names. -/
theorem nodup_roles_after (name : String) (additions : List Addition) :
    let graph := ({ name := name } : Graph).after additions
    graph.inputs.Nodup ∧ graph.constants.Nodup ∧ graph.inputs.Disjoint graph.constants := by
  have hempty : ({ name := name } : Graph).RolesOnce :=
    ⟨List.nodup_nil, fun _ hother ↦ absurd hother List.not_mem_nil⟩
  exact List.nodup_append'.mp (hempty.after (.empty name) additions).nodup

end Building

end Graph

/-! ### What a module declares -/

/-- The line of the signature of a method with given parameters. -/
def signatureLine (parameters : List String) : String :=
  indentation ++ "def forward(" ++ ", ".intercalate parameters ++ "):"

/-- Whether a line registers the buffer with a given identifier. -/
def RegistersBuffer (ident line : String) : Prop :=
  ∃ rest, line =
    indentation ++ indentation ++ "self.register_buffer(" ++ Text.quote ident ++ ", " ++ rest

/-- Whether a module of a graph declares given parameters and buffers: after its head, a line
registers each buffer, and the method has the parameters. What is left is the body of the method. -/
def Generated.Declares (generated : Generated) (graph : Graph) (className : String)
    (parameters buffers : List String) : Prop :=
  ∃ bufferLines body : List String, List.Forall₂ RegistersBuffer buffers bufferLines ∧
    generated.source.toList = writeLines ((headLines graph className ++ bufferLines ++
      ["", signatureLine parameters] ++
        body.map fun line ↦ indentation ++ indentation ++ line).map String.toList)

section Declarations

variable {graph : Graph}

theorem registersBuffer_of_bufferLine {name line : String}
    (hline : bufferLine graph name = .ok line) : RegistersBuffer (sanitize name) line := by
  obtain ⟨info, _, hline⟩ := Result.bind_eq_ok_iff.mp hline
  obtain ⟨shape, _, hline⟩ := Result.bind_eq_ok_iff.mp hline
  obtain rfl := Except.ok.inj hline
  have hcomma : ", torch.empty(" = ", " ++ "torch.empty(" := by decide
  refine ⟨"torch.empty(" ++ (shape ++ (", dtype=torch." ++ (info.elementType ++ "))"))), ?_⟩
  rw [hcomma]
  simp only [String.append_assoc]

/-- A module declares the parameters and the buffers of its graph. -/
theorem declares_of_moduleText {className : String} {body : Body} {generated : Generated}
    (hsource : moduleText graph className body = .ok generated.source) :
    generated.Declares graph className (parameters graph) (buffers graph) := by
  obtain ⟨lines, hlines, hsource⟩ := exists_moduleLines hsource
  obtain ⟨bufferLines, hbuffers, hlines⟩ := Result.bind_eq_ok_iff.mp hlines
  obtain rfl := Except.ok.inj hlines
  refine ⟨bufferLines, body.lines, ?_, hsource⟩
  rw [buffers, List.forall₂_map_left_iff]
  exact (Result.mapM_eq_ok_iff.mp hbuffers).imp fun _ _ ↦ registersBuffer_of_bufferLine

end Declarations

/-- A module that is generated from a graph that passes its checks declares a parameter for each
input after `self` and a buffer for each constant. Its parameters are distinct exactly when the
inputs are, its buffers are when the constants are, and no parameter is a buffer when no input is a
constant. -/
theorem signature_distinct_iff {setup : Setup} {options : Options} {graph : Graph} {trace : Trace}
    {generated : Generated}
    (hchecks : (standardChecks setup.ops).onGraph ⊆ setup.checks.onGraph)
    (hstrictness : options.strictness = "normal" ∨ options.strictness = "strict")
    (hgenerated : (generate setup options graph trace).1 = .ok generated) :
    generated.Declares graph options.className ("self" :: graph.inputs.map sanitize)
      (graph.constants.map sanitize) ∧
    (("self" :: graph.inputs.map sanitize).Nodup ↔ graph.inputs.Nodup) ∧
    ((graph.constants.map sanitize).Nodup ↔ graph.constants.Nodup) ∧
    (("self" :: graph.inputs.map sanitize).Disjoint (graph.constants.map sanitize) ↔
      graph.inputs.Disjoint graph.constants) := by
  obtain ⟨failOn, body, hvalidate, hmodule⟩ := generate_eq_ok (Prod.ext hgenerated rfl)
  obtain ⟨severity, rfl⟩ := exists_severity_of_validate hvalidate hstrictness
  obtain ⟨findings, hpassed⟩ := hmodule.checked severity rfl
  have hapart := rolesApart_of_runOnGraph hchecks hpassed
  exact ⟨declares_of_moduleText hmodule.source, hapart.nodup_parameters_iff,
    hapart.nodup_buffers_iff, hapart.disjoint_iff⟩

/-- The identifiers are distinct that the module of a graph with a parameter and a buffer
declares. -/
theorem signature_distinct_iff_quoted :
    ∃ generated, (generate standardSetup {} quoted {}).1 = .ok generated ∧
      generated.Declares quoted "Model" ["self", "x_0"] ["w"] ∧ ["self", "x_0"].Nodup ∧
      ["self", "x_0"].Disjoint ["w"] := by
  obtain ⟨generated, hgenerated⟩ : Result.Returns (generate standardSetup {} quoted {}).1 :=
    returns_generate_of_lines (by decide +kernel) (by decide +kernel)
  obtain ⟨hdeclares, hparameters, _, hdisjoint⟩ :=
    signature_distinct_iff (List.Subset.refl _) (.inl rfl) hgenerated
  have hinputs : "self" :: quoted.inputs.map sanitize = ["self", "x_0"] := by decide +kernel
  have hconstants : quoted.constants.map sanitize = ["w"] := by decide +kernel
  rw [hinputs] at hdeclares hparameters hdisjoint
  rw [hconstants] at hdeclares hdisjoint
  have hroles : ∀ name ∈ quoted.inputs, name ∉ quoted.constants := by decide +kernel
  exact ⟨generated, hgenerated, hdeclares, hparameters.mpr (by decide +kernel),
    hdisjoint.mpr hroles⟩

/-- The steps that build a graph whose input is listed twice. -/
def twiceSteps : Result Graph := do
  let graph ← Graph.addInput { name := "twice" } "x" [.int 2] "float32"
  let graph ← graph.addTensor "y" [.int 2] "float32"
  let graph ← graph.addNode .relu ["x"] ["y"] {}
  return { graph with inputs := ["x", "x"], outputs := ["y"] }

/-- A graph whose input is listed twice. -/
def twice : Graph := twiceSteps.toOption.get rfl

/-- The graph passes its checks, and its module declares one parameter twice. -/
theorem input_listed_twice :
    ∃ generated, (generate standardSetup {} twice {}).1 = .ok generated ∧
      generated.Declares twice "Model" ["self", "x", "x"] [] ∧ ¬ ["self", "x", "x"].Nodup := by
  obtain ⟨generated, hgenerated⟩ : Result.Returns (generate standardSetup {} twice {}).1 :=
    returns_generate_of_lines (by decide +kernel) (by decide +kernel)
  obtain ⟨_, _, _, hmodule⟩ := generate_eq_ok (Prod.ext hgenerated rfl)
  have hparameters : parameters twice = ["self", "x", "x"] := by decide +kernel
  have hbuffers : buffers twice = [] := by decide +kernel
  have hdeclares := declares_of_moduleText hmodule.source
  rw [hparameters, hbuffers] at hdeclares
  exact ⟨generated, hgenerated, hdeclares, by decide⟩

end Handover
