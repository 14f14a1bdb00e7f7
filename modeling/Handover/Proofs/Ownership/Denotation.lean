import Handover.Evaluation.Run
import Handover.Program.Emission
import Handover.Proofs.Ownership.Machine
import Mathlib.Data.List.Forall2

/-!
# Pure evaluation

The values that a graph returns for any meaning of the operators, without storage and without
ownership (`Graph.denote`): names stand for values, every node binds its outputs, and a later
binding of a name replaces an earlier one. The evaluation of a graph on tensors is the case in which
an operator means what it evaluates to (`Interpretation.evaluated`, `denote_of_evaluate`).
-/

set_option autoImplicit false
set_option relaxedAutoImplicit false

namespace Handover

universe u

variable {V : Type u}

/-- What names stand for at a point of a program. -/
abbrev Valuation (V : Type u) : Type u := String → Option V

namespace Valuation

/-- The valuation with names bound to values, in order. -/
def bind (valuation : Valuation V) (names : List String) (values : List V) : Valuation V :=
  (names.zip values).foldl
    (fun valuation entry ↦ Function.update valuation entry.1 (some entry.2)) valuation

/-- The valuation after a node. -/
def after (meaning : Interpretation V) (valuation : Valuation V) (node : Node) :
    Option (Valuation V) := do
  let operands ← node.inputs.mapM valuation
  return valuation.bind node.outputs
    (List.ofFn (meaning node.op node.attrs operands node.outputs.length))

theorem bind_cons (valuation : Valuation V) (name : String) (names : List String) (value : V)
    (values : List V) : valuation.bind (name :: names) (value :: values) =
      Valuation.bind (Function.update valuation name (some value)) names values := rfl

theorem bind_of_not_mem {names : List String} {name : String} (hname : name ∉ names)
    (valuation : Valuation V) (values : List V) :
    valuation.bind names values name = valuation name := by
  induction names generalizing valuation values with
  | nil => rfl
  | cons head rest ih =>
    cases values with
    | nil => rfl
    | cons value values =>
      rw [List.mem_cons, not_or] at hname
      rw [bind_cons, ih hname.2, Function.update_of_ne hname.1]

theorem mapM_eq_some_of_forall₂ {valuation : Valuation V} {names : List String} {values : List V}
    (hvalues : List.Forall₂ (fun name value ↦ valuation name = some value) names values) :
    names.mapM valuation = some values := by
  induction hvalues with
  | nil => rfl
  | cons hhead _ ih => rw [List.mapM_cons, hhead, ih]; rfl

end Valuation

namespace Graph

variable (graph : Graph)

/-- What names stand for before the first node: inputs for arguments, and constants for what the
module holds. -/
def valuation (arguments constants : String → V) : Valuation V := fun name ↦
  if graph.isConstant name then some (constants name)
  else if graph.inputs.contains name then some (arguments name)
  else none

/-- The values that a graph returns. -/
def denote (meaning : Interpretation V) (arguments constants : String → V) : Option (List V) := do
  let final ← graph.nodes.foldlM (Valuation.after meaning) (graph.valuation arguments constants)
  graph.outputs.mapM final

end Graph

/-! ### Evaluation on tensors -/

section Evaluation

/-- The meaning that operators have in an evaluation: a single output stands for the whole result,
and several outputs stand for a part of it each. -/
def Interpretation.evaluated : Interpretation Value := fun op attrs operands count index ↦
  let result := (op.evaluate operands attrs).toOption.getD default
  if count = 1 then result else (result.parts.toOption.getD []).getD index default

/-- Whether every result of a node has a part for each of its outputs. -/
def Node.Unpacks (node : Node) : Prop :=
  node.outputs.length = 1 ∨ ∀ operands result parts,
    node.op.evaluate operands node.attrs = .ok result → result.parts = .ok parts →
    node.outputs.length ≤ parts.length

/-- The value that an input of an evaluation stands for. -/
def argumentOf (inputs : OrderedMap String Strided) (name : String) : Value :=
  ((inputs.find? name).map Value.array).getD default

/-- The value that a constant of an evaluation stands for. -/
def Graph.constantOf (graph : Graph) (name : String) : Value :=
  (((graph.tensor name).toOption.bind TensorInfo.buffer).map Value.array).getD default

variable {graph : Graph} {environment final : Environment} {valuation : Valuation Value}

/-- Whether an environment binds each name to what it stands for. -/
def Environment.Reads (environment : Environment) (valuation : Valuation Value) : Prop :=
  ∀ name, environment.find? name = valuation name

theorem Environment.Reads.insert (hreads : environment.Reads valuation) (name : String)
    (value : Value) :
    Environment.Reads (OrderedMap.insert environment name value)
      (Function.update valuation name (some value)) := by
  intro other
  by_cases hother : other = name
  · rw [hother, OrderedMap.find?_insert_self, Function.update_self]
  · rw [OrderedMap.find?_insert_of_ne _ hother, Function.update_of_ne hother, hreads]

theorem Environment.Reads.value_eq_ok_iff (hreads : environment.Reads valuation) {name : String}
    {value : Value} : environment.value name = .ok value ↔ valuation name = some value := by
  unfold Environment.value
  rw [hreads name]
  cases valuation name with
  | none => simp
  | some found => simp

theorem Environment.Reads.mapM_value (hreads : environment.Reads valuation) {names : List String}
    {values : List Value} (hvalues : names.mapM environment.value = .ok values) :
    names.mapM valuation = some values := by
  refine Valuation.mapM_eq_some_of_forall₂ ?_
  refine List.Forall₂.imp (fun name value hvalue ↦ ?_) (Result.mapM_eq_ok_iff.mp hvalues)
  exact hreads.value_eq_ok_iff.mp hvalue

theorem Environment.Reads.foldl_insert (hreads : environment.Reads valuation) (names : List String)
    (values : List Value) :
    Environment.Reads ((names.zip values).foldl (fun bound entry ↦ bound.insert entry.1 entry.2)
      environment) (valuation.bind names values) := by
  induction names generalizing environment valuation values with
  | nil => exact hreads
  | cons name names ih =>
    cases values with
    | nil => exact hreads
    | cons value values => exact ih (hreads.insert name value) values

/-- The first parts of a list, as many as there are names to bind, bind the same as the whole. -/
theorem zip_ofFn_getD {names : List String} {parts : List Value}
    (hlength : names.length ≤ parts.length) :
    names.zip (List.ofFn fun index : Fin names.length ↦ parts.getD index default) =
      names.zip parts := by
  refine List.ext_getElem (by simp [hlength]) fun index hleft hright ↦ ?_
  rw [List.length_zip] at hright
  have hindex : index < parts.length := by omega
  simp [hindex]

/-- Assumes: a node whose results have a part for each output. -/
theorem Environment.Reads.bind (hreads : environment.Reads valuation) {node : Node}
    (hunpacks : node.Unpacks) {operands : List Value} {result : Value}
    (hresult : node.op.evaluate operands node.attrs = .ok result)
    (hbind : environment.bind node.outputs result = .ok final) :
    final.Reads (valuation.bind node.outputs (List.ofFn
      (Interpretation.evaluated node.op node.attrs operands node.outputs.length))) := by
  by_cases hsingle : node.outputs.length = 1
  · obtain ⟨output, houtput⟩ := List.length_eq_one_iff.mp hsingle
    rw [houtput] at hbind ⊢
    obtain rfl := Except.ok.inj hbind
    have hvalues : List.ofFn (Interpretation.evaluated node.op node.attrs operands 1) =
        [result] := by
      simp [Interpretation.evaluated, hresult, Except.toOption]
    exact hvalues ▸ hreads.insert output result
  · rw [Environment.bind_of_length_ne_one hsingle] at hbind
    obtain ⟨parts, hparts, hfinal⟩ := Result.bind_eq_ok_iff.mp hbind
    obtain rfl := Except.ok.inj hfinal
    have hlength := (hunpacks.resolve_left hsingle) operands result parts hresult hparts
    have hvalues : Interpretation.evaluated node.op node.attrs operands node.outputs.length =
        fun index : Fin node.outputs.length ↦ parts.getD index default := by
      funext index
      simp [Interpretation.evaluated, hresult, hparts, hsingle, Except.toOption]
    rw [hvalues, Valuation.bind, zip_ofFn_getD hlength]
    exact hreads.foldl_insert node.outputs parts

theorem Environment.Reads.step (hreads : environment.Reads valuation) {node : Node}
    (hunpacks : node.Unpacks) {ops : List Op} (hstep : environment.step ops node = .ok final) :
    ∃ reached, valuation.after Interpretation.evaluated node = some reached ∧
      final.Reads reached := by
  unfold Environment.step at hstep
  split_ifs at hstep
  · cases hstep
  obtain ⟨operands, hoperands, hrest⟩ := Result.bind_eq_ok_iff.mp hstep
  obtain ⟨result, hresult, hbind⟩ := Result.bind_eq_ok_iff.mp hrest
  refine ⟨_, ?_, hreads.bind hunpacks hresult hbind⟩
  rw [Valuation.after, hreads.mapM_value hoperands]
  rfl

theorem Environment.Reads.foldlM_step {ops : List Op} {nodes : List Node}
    (hunpacks : ∀ node ∈ nodes, node.Unpacks) (hreads : environment.Reads valuation)
    (hsteps : nodes.foldlM (Environment.step ops) environment = .ok final) :
    ∃ reached, nodes.foldlM (Valuation.after Interpretation.evaluated) valuation = some reached ∧
      final.Reads reached := by
  induction nodes generalizing environment valuation with
  | nil =>
    obtain rfl := Except.ok.inj hsteps
    exact ⟨valuation, rfl, hreads⟩
  | cons node rest ih =>
    rw [List.foldlM_cons] at hsteps
    obtain ⟨next, hnext, hrest⟩ := Result.bind_eq_ok_iff.mp hsteps
    obtain ⟨bound, hbound, hreads⟩ := hreads.step (hunpacks node (List.mem_cons_self ..)) hnext
    obtain ⟨reached, hreached, hfinal⟩ :=
      ih (fun other hother ↦ hunpacks other (List.mem_cons_of_mem _ hother)) hreads hrest
    refine ⟨reached, ?_, hfinal⟩
    rw [List.foldlM_cons, hbound]
    exact hreached

/-- Binding names to the values that they stand for, one after the other. -/
theorem Environment.Reads.foldlM_bind {names : List String}
    {bindOne : Environment → String → Result Environment} (meant : String → Value)
    (hbind : ∀ environment name final, bindOne environment name = .ok final →
      final = OrderedMap.insert environment name (meant name))
    (hreads : environment.Reads valuation)
    (hbound : names.foldlM bindOne environment = .ok final) :
    final.Reads fun name ↦ if names.contains name then some (meant name) else valuation name := by
  induction names generalizing environment valuation with
  | nil =>
    obtain rfl := Except.ok.inj hbound
    exact hreads
  | cons head rest ih =>
    rw [List.foldlM_cons] at hbound
    obtain ⟨next, hnext, hrest⟩ := Result.bind_eq_ok_iff.mp hbound
    obtain rfl := hbind environment head next hnext
    intro name
    rw [ih (hreads.insert head (meant head)) hrest name]
    by_cases hname : name = head
    · subst hname
      simp
    · simp [hname]

theorem reads_initialEnvironment {inputs : OrderedMap String Strided}
    (hinitial : initialEnvironment graph inputs = .ok environment) :
    environment.Reads (graph.valuation (argumentOf inputs) graph.constantOf) := by
  obtain ⟨bound, hbound, hconstants⟩ := Result.bind_eq_ok_iff.mp hinitial
  have hnone : Environment.Reads {} fun _ ↦ none := fun _ ↦ rfl
  have hinputs := hnone.foldlM_bind (argumentOf inputs) ?_ hbound
  · have hall := hinputs.foldlM_bind graph.constantOf ?_ hconstants
    · exact hall
    · intro environment name final hfinal
      obtain ⟨info, hinfo, hdata⟩ := Result.bind_eq_ok_iff.mp hfinal
      cases hbuffer : info.buffer with
      | none =>
        rw [hbuffer] at hdata
        cases hdata
      | some data =>
        rw [hbuffer] at hdata
        obtain rfl := Except.ok.inj hdata
        simp [Graph.constantOf, hinfo, hbuffer, Except.toOption]
  · intro environment name final hfinal
    unfold Environment.bindInput at hfinal
    cases hfind : inputs.find? name with
    | none =>
      rw [hfind] at hfinal
      cases hfinal
    | some tensor =>
      rw [hfind] at hfinal
      obtain rfl := Except.ok.inj hfinal
      simp [argumentOf, hfind]

/-- The evaluation of a graph gives its outputs the values that the graph returns when operators
mean what they evaluate to. Assumes: the results of nodes have a part for each output. -/
theorem denote_of_evaluate {ops : List Op} {inputs : OrderedMap String Strided}
    (hunpacks : ∀ node ∈ graph.nodes, node.Unpacks) (hrun : evaluate ops graph inputs = .ok final) :
    ∃ values, graph.denote Interpretation.evaluated (argumentOf inputs) graph.constantOf =
      some values ∧ final = OrderedMap.ofList (graph.outputs.zip values) := by
  obtain ⟨initial, hinitial, hrest⟩ := Result.bind_eq_ok_iff.mp hrun
  obtain ⟨last, hlast, hrest⟩ := Result.bind_eq_ok_iff.mp hrest
  obtain ⟨entries, hentries, hfinal⟩ := Result.bind_eq_ok_iff.mp hrest
  obtain rfl := Except.ok.inj hfinal
  obtain ⟨reached, hreached, hreads⟩ :=
    (reads_initialEnvironment hinitial).foldlM_step hunpacks hlast
  have hpairs : List.Forall₂ (fun name entry ↦ reached name = some entry.2 ∧ entry.1 = name)
      graph.outputs entries := by
    refine List.Forall₂.imp (fun name entry hentry ↦ ?_) (Result.mapM_eq_ok_iff.mp hentries)
    obtain ⟨value, hvalue, hentry⟩ := Result.bind_eq_ok_iff.mp hentry
    obtain rfl := Except.ok.inj hentry
    exact ⟨hreads.value_eq_ok_iff.mp hvalue, rfl⟩
  refine ⟨entries.map Prod.snd, ?_, ?_⟩
  · rw [Graph.denote, hreached]
    refine Valuation.mapM_eq_some_of_forall₂ (List.forall₂_map_right_iff.mpr ?_)
    exact List.Forall₂.imp (fun _ _ h ↦ h.1) hpairs
  · have hnames : List.Forall₂ (· = ·) graph.outputs (entries.map Prod.fst) :=
      List.forall₂_map_right_iff.mpr (List.Forall₂.imp (fun _ _ h ↦ h.2.symm) hpairs)
    rw [List.forall₂_eq_eq_eq] at hnames
    exact congrArg OrderedMap.ofList (List.zip_of_prod hnames.symm rfl)

end Evaluation

end Handover
