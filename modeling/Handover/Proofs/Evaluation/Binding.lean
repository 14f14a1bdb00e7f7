import Handover.Generation
import Handover.Proofs.Check.Passing
import Handover.Proofs.Graph.Calls
import Handover.Proofs.Evaluation.Pieces
import Mathlib.Data.List.Induction

/-!
# What an evaluation binds

The statement of a node gives its outputs the result of its operator as it is, or one part of it
each where the result is unpacked (`Node.Assigns`). The evaluation of a node follows its statement
when it binds the outputs to these values, all of them arrays or scalars, and keeps what every other
name stands for (`Environment.Follows`).

An evaluation unpacks results by the number of outputs alone, so it departs from a statement that
takes the only entry of a tuple: a node that splits off a single piece leaves the list of this piece
(`list_of_single_piece`). And it drops what is left over: where a result that is unpacked has fewer
parts than there are outputs, the last outputs keep their older values
(`Environment.find?_of_missing_part`). On a graph that passes its checks and lists the sizes of its
pieces flat these are the only departures (`follows_iff_several_pieces`).
-/

set_option autoImplicit false
set_option relaxedAutoImplicit false

namespace Handover

open Result (Ensures ensures_pure)

/-! ### Statements as bindings -/

/-- The values that the statement of a node gives to its outputs. -/
inductive Node.Assigns (node : Node) (result : Value) : List Value → Prop
  | whole (hsingle : node.outputs.length = 1) (htuple : node.op.yieldsTuple = false) :
    Assigns node result [result]
  | parts {values : List Value}
    (hunpacked : node.outputs.length ≠ 1 ∨ node.op.yieldsTuple = true)
    (hparts : result.parts = .ok values) (hlength : values.length = node.outputs.length) :
    Assigns node result values

namespace Environment

/-- Whether an environment is another one with names bound to values, one after the other: where a
name stands more than once, its last value counts. -/
structure Binds (environment reached : Environment) (names : List String) (values : List Value) :
    Prop where
  length : values.length = names.length
  bound : ∀ index name, names[index]? = some name → name ∉ names.drop (index + 1) →
    reached.find? name = values[index]?
  kept : ∀ name ∉ names, reached.find? name = environment.find? name

/-- Whether an environment is what another one becomes by the statement of a node, where every value
that is bound is an array or a scalar. -/
def Follows (environment reached : Environment) (node : Node) : Prop :=
  ∃ operands result values, node.inputs.mapM environment.value = .ok operands ∧
    node.op.evaluate operands node.attrs = .ok result ∧ node.Assigns result values ∧
    environment.Binds reached node.outputs values ∧ ∀ value ∈ values, value.isNumeric = true

theorem binds_foldl_insert (environment : Environment) {names : List String} {values : List Value}
    (hlength : values.length = names.length) :
    environment.Binds ((names.zip values).foldl (fun bound entry ↦ bound.insert entry.1 entry.2)
      environment) names values := by
  induction names generalizing environment values with
  | nil => exact ⟨hlength, by simp, fun _ _ ↦ rfl⟩
  | cons head names ih =>
    obtain ⟨value, values, rfl⟩ := List.exists_cons_of_length_eq_add_one hlength
    rw [List.length_cons, List.length_cons, Nat.add_right_cancel_iff] at hlength
    have hrest := ih (environment.insert head value) hlength
    refine ⟨by rw [List.length_cons, List.length_cons, hlength], ?_, ?_⟩
    · intro index name hname hlast
      cases index with
      | zero =>
        obtain rfl := Option.some.inj hname
        exact (hrest.kept head hlast).trans (OrderedMap.find?_insert_self ..)
      | succ index => exact hrest.bound index name hname hlast
    · intro name hname
      rw [List.mem_cons, not_or] at hname
      exact (hrest.kept name hname.2).trans (OrderedMap.find?_insert_of_ne _ hname.1 _)

theorem find?_foldl_insert_of_not_mem (environment : Environment) {entries : List (String × Value)}
    {name : String} (hname : name ∉ entries.map Prod.fst) :
    (entries.foldl (fun bound entry ↦ bound.insert entry.1 entry.2) environment).find? name =
      environment.find? name := by
  induction entries generalizing environment with
  | nil => rfl
  | cons entry rest ih =>
    rw [List.map_cons, List.mem_cons, not_or] at hname
    exact (ih _ hname.2).trans (OrderedMap.find?_insert_of_ne _ hname.1 _)

/-! ### Environments of arrays and scalars -/

/-- Whether every name stands for an array or a scalar. -/
def Numeric (environment : Environment) : Prop :=
  ∀ name value, environment.find? name = some value → value.isNumeric = true

variable {environment reached : Environment} {node : Node} {ops : List Op}

theorem numeric_empty : Numeric {} := by
  intro name value hvalue
  cases hvalue

theorem Numeric.insert (hnumeric : environment.Numeric) (name : String) {value : Value}
    (hvalue : value.isNumeric = true) : Numeric (OrderedMap.insert environment name value) := by
  intro other found hfound
  by_cases hother : other = name
  · rw [hother, OrderedMap.find?_insert_self] at hfound
    rwa [← Option.some.inj hfound]
  · rw [OrderedMap.find?_insert_of_ne _ hother] at hfound
    exact hnumeric other found hfound

theorem Numeric.foldl_insert (hnumeric : environment.Numeric) {entries : List (String × Value)}
    (hentries : ∀ entry ∈ entries, entry.2.isNumeric = true) :
    Numeric (entries.foldl (fun bound entry ↦ bound.insert entry.1 entry.2) environment) := by
  induction entries generalizing environment with
  | nil => exact hnumeric
  | cons entry rest ih =>
    rw [List.forall_mem_cons] at hentries
    exact ih (hnumeric.insert entry.1 hentries.1) hentries.2

theorem Numeric.value (hnumeric : environment.Numeric) (name : String) :
    (environment.value name).Numeric := by
  unfold Environment.value
  split
  · next value hvalue => exact ensures_pure (hnumeric name value hvalue)
  · intro value hvalue
    cases hvalue

theorem Numeric.mapM_value (hnumeric : environment.Numeric) {names : List String}
    {operands : List Value} (hoperands : names.mapM environment.value = .ok operands) :
    ∀ operand ∈ operands, operand.isNumeric = true := by
  intro operand hoperand
  obtain ⟨name, _, hname⟩ := Result.exists_of_mem_of_mapM hoperands hoperand
  exact hnumeric.value name operand hname

theorem numeric_of_initialEnvironment {graph : Graph} {inputs : OrderedMap String Strided} :
    (initialEnvironment graph inputs).Ensures Numeric := by
  refine Ensures.bind fun bound hbound ↦ ?_
  refine Ensures.foldlM ?_ ?_
  · refine Ensures.foldlM numeric_empty (fun environment name hnumeric ↦ ?_) bound hbound
    unfold bindInput
    split
    · exact ensures_pure (hnumeric.insert name rfl)
    · intro reached hreached
      cases hreached
  · intro environment name hnumeric
    refine Ensures.bind fun info _ ↦ ?_
    split
    · exact ensures_pure (hnumeric.insert name rfl)
    · intro reached hreached
      cases hreached

/-- An evaluation returns arrays and scalars when its names stand for nothing else in the end. -/
theorem Numeric.evaluate {graph : Graph} {inputs : OrderedMap String Strided}
    {initial final outputs : Environment} (hinitial : initialEnvironment graph inputs = .ok initial)
    (hfinal : graph.nodes.foldlM (Environment.step ops) initial = .ok final)
    (hnumeric : final.Numeric) (houtputs : Handover.evaluate ops graph inputs = .ok outputs) :
    outputs.Numeric := by
  unfold Handover.evaluate at houtputs
  rw [hinitial] at houtputs
  obtain ⟨_, hstart, hrest⟩ := Result.bind_eq_ok_iff.mp houtputs
  obtain rfl := Except.ok.inj hstart
  obtain ⟨found, hfound, hrest⟩ := Result.bind_eq_ok_iff.mp hrest
  obtain rfl := Except.ok.inj (hfinal.symm.trans hfound)
  obtain ⟨entries, hentries, hrest⟩ := Result.bind_eq_ok_iff.mp hrest
  obtain rfl := Except.ok.inj hrest
  refine numeric_empty.foldl_insert fun entry hentry ↦ ?_
  obtain ⟨name, _, hname⟩ := Result.exists_of_mem_of_mapM hentries hentry
  obtain ⟨value, hvalue, hname⟩ := Result.bind_eq_ok_iff.mp hname
  obtain rfl := Except.ok.inj hname
  exact hnumeric.value name value hvalue

/-! ### One node -/

theorem step_eq_ok (hstep : environment.step ops node = .ok reached) :
    ∃ operands result, node.inputs.mapM environment.value = .ok operands ∧
      node.op.evaluate operands node.attrs = .ok result ∧
      environment.bind node.outputs result = .ok reached := by
  unfold Environment.step at hstep
  split_ifs at hstep
  · cases hstep
  obtain ⟨operands, hoperands, hrest⟩ := Result.bind_eq_ok_iff.mp hstep
  obtain ⟨result, hresult, hbind⟩ := Result.bind_eq_ok_iff.mp hrest
  exact ⟨operands, result, hoperands, hresult, hbind⟩

/-- The results of a node whose operator yields a tuple are lists of pieces. -/
theorem exists_pieces_of_evaluate {op : Op} (htuple : op.yieldsTuple = true) {attrs : Attrs}
    {operands : List Value} {result : Value} (hresult : op.evaluate operands attrs = .ok result) :
    ∃ pieces, Evaluation.piecesOf operands attrs = .ok pieces ∧ result = .list pieces := by
  cases op with
  | split =>
    obtain ⟨pieces, hpieces, hrest⟩ := Result.bind_eq_ok_iff.mp hresult
    exact ⟨pieces, hpieces, (Except.ok.inj hrest).symm⟩
  | _ => cases htuple

/-- A single output takes the whole result, also the list of pieces of a split. -/
theorem find?_of_single_output (hsingle : node.outputs.length = 1)
    (hstep : environment.step ops node = .ok reached) :
    ∃ operands result output, node.inputs.mapM environment.value = .ok operands ∧
      node.op.evaluate operands node.attrs = .ok result ∧ node.outputs = [output] ∧
      reached = OrderedMap.insert environment output result := by
  obtain ⟨operands, result, hoperands, hresult, hbind⟩ := step_eq_ok hstep
  obtain ⟨output, houtput⟩ := List.length_eq_one_iff.mp hsingle
  rw [houtput] at hbind
  exact ⟨operands, result, output, hoperands, hresult, houtput, (Except.ok.inj hbind).symm⟩

/-- A result that is unpacked and has fewer parts than its node has outputs leaves the outputs that
get none as they were. -/
theorem find?_of_missing_part (hseveral : node.outputs.length ≠ 1) {operands parts : List Value}
    {result : Value} (hoperands : node.inputs.mapM environment.value = .ok operands)
    (hresult : node.op.evaluate operands node.attrs = .ok result)
    (hparts : result.parts = .ok parts) (hstep : environment.step ops node = .ok reached)
    {name : String} (hname : name ∉ node.outputs.take parts.length) :
    reached.find? name = environment.find? name := by
  obtain ⟨others, found, hothers, hfound, hbind⟩ := step_eq_ok hstep
  obtain rfl := Except.ok.inj (hoperands.symm.trans hothers)
  obtain rfl := Except.ok.inj (hresult.symm.trans hfound)
  rw [bind_of_length_ne_one hseveral, hparts] at hbind
  obtain rfl := Except.ok.inj hbind
  refine find?_foldl_insert_of_not_mem environment fun hbound ↦ hname ?_
  obtain ⟨entry, hentry, rfl⟩ := List.mem_map.mp hbound
  obtain ⟨index, hindex⟩ := List.mem_iff_getElem?.mp hentry
  obtain ⟨hleft, hright⟩ := List.getElem?_zip_eq_some.mp hindex
  obtain ⟨hlength, -⟩ := List.getElem?_eq_some_iff.mp hright
  exact List.mem_iff_getElem?.mpr ⟨index, by rw [List.getElem?_take_of_lt hlength, hleft]⟩

/-- A node that splits off a single piece does not follow its statement. -/
theorem not_follows_of_single_piece (htuple : node.op.yieldsTuple = true)
    (hsingle : node.outputs.length = 1) (hstep : environment.step ops node = .ok reached) :
    ¬ environment.Follows reached node := by
  rintro ⟨operands, result, values, hoperands, hresult, hassigns, hbinds, hnumeric⟩
  obtain ⟨others, found, output, hothers, hfound, houtput, rfl⟩ :=
    find?_of_single_output hsingle hstep
  obtain rfl := Except.ok.inj (hoperands.symm.trans hothers)
  obtain rfl := Except.ok.inj (hresult.symm.trans hfound)
  obtain ⟨pieces, _, rfl⟩ := exists_pieces_of_evaluate htuple hresult
  obtain ⟨value, rfl⟩ := List.length_eq_one_iff.mp (hbinds.length.trans hsingle)
  have hvalue := hbinds.bound 0 output (by rw [houtput]; rfl) (by rw [houtput]; simp)
  rw [OrderedMap.find?_insert_self] at hvalue
  have hlist := hnumeric value (List.mem_singleton_self value)
  rw [← Option.some.inj hvalue] at hlist
  cases hlist

end Environment

/-! ### Nodes whose results have a part for each output -/

/-- Whether the attributes of a node are sound in what they list: a node that splits lists the sizes
of its pieces flat, and a product multiplies by numbers. -/
structure Node.ListsSoundly (node : Node) : Prop where
  sizes : node.op.yieldsTuple = true →
    ((node.attrs.find? "sizes").bind Attr.flatLength?).isSome = true
  numbers : node.op = .mul → node.attrs.multipliesNumbers = true

theorem Attr.itemCount_of_flatLength {sizes : Attr} {count : Nat}
    (hflat : sizes.flatLength? = some count) : Structure.itemCount sizes = .ok count := by
  unfold flatLength? at hflat
  split at hflat
  · split_ifs at hflat
    exact congrArg _ (Option.some.inj hflat)
  · split_ifs at hflat
    exact congrArg _ (Option.some.inj hflat)
  · cases hflat

section OneNode

variable {graph : Graph} {node : Node} {ops : List Op} {environment reached : Environment}

/-- A checked node that splits has one output for each piece. Assumes: its sizes are listed flat. -/
theorem length_pieces_eq (harity : Structure.splitArity graph node = .ok [])
    (hsizes : ((node.attrs.find? "sizes").bind Attr.flatLength?).isSome = true)
    (houtputs : node.outputs ≠ []) {operands pieces : List Value}
    (hpieces : Evaluation.piecesOf operands node.attrs = .ok pieces) :
    pieces.length = node.outputs.length := by
  obtain ⟨count, hcount⟩ := Option.isSome_iff_exists.mp hsizes
  obtain ⟨sizes, hfound, hflat⟩ := Option.bind_eq_some_iff.mp hcount
  have hitems : Structure.itemCount sizes = .ok count := Attr.itemCount_of_flatLength hflat
  have hsome : sizes ≠ .null := by
    rintro rfl
    cases hflat
  rw [Structure.itemCount_of_splitArity harity hfound hsome] at hitems
  have hcount := Except.ok.inj hitems
  have hpositive := List.length_pos_of_ne_nil houtputs
  rw [Evaluation.length_piecesOf hfound hflat hpieces]
  omega

/-- A split into a single piece leaves the list of this piece. Assumes: the node is checked, and its
sizes are listed flat. -/
theorem list_of_single_piece (harity : Structure.splitArity graph node = .ok [])
    (hlists : node.ListsSoundly) (htuple : node.op.yieldsTuple = true) {output : String}
    (hsingle : node.outputs = [output]) (hstep : environment.step ops node = .ok reached) :
    ∃ piece, reached.find? output = some (.list [piece]) ∧ piece.isNumeric = true := by
  obtain ⟨operands, result, other, _, hresult, hother, rfl⟩ :=
    Environment.find?_of_single_output (congrArg List.length hsingle) hstep
  obtain rfl := (List.cons.inj (hsingle.symm.trans hother)).1
  obtain ⟨pieces, hpieces, rfl⟩ := Environment.exists_pieces_of_evaluate htuple hresult
  have hlength := length_pieces_eq harity (hlists.sizes htuple) (by rw [hsingle]; simp) hpieces
  rw [hsingle] at hlength
  obtain ⟨piece, rfl⟩ := List.length_eq_one_iff.mp hlength
  exact ⟨piece, OrderedMap.find?_insert_self .., Evaluation.numeric_of_piecesOf hpieces piece
    (List.mem_singleton_self piece)⟩

/-- Assumes: the node is checked and lists soundly, it does not split off a single piece, and where
another result is unpacked it has as many parts as the node has outputs. -/
theorem follows_of_step (harity : Structure.splitArity graph node = .ok [])
    (hlists : node.ListsSoundly) (hoperands : environment.Numeric)
    (hseveral : node.op.yieldsTuple = true → node.outputs.length ≠ 1) (houtputs : node.outputs ≠ [])
    (hrows : node.op.yieldsTuple = false → node.outputs.length ≠ 1 →
      ∀ operands result parts, node.inputs.mapM environment.value = .ok operands →
        node.op.evaluate operands node.attrs = .ok result → result.parts = .ok parts →
        parts.length = node.outputs.length)
    (hstep : environment.step ops node = .ok reached) :
    environment.Follows reached node ∧ reached.Numeric := by
  obtain ⟨operands, result, hvalues, hresult, hbind⟩ := Environment.step_eq_ok hstep
  have hnumeric := hoperands.mapM_value hvalues
  by_cases hsingle : node.outputs.length = 1
  · have htuple : node.op.yieldsTuple = false := by
      rw [← Bool.not_eq_true]
      exact fun h ↦ hseveral h hsingle
    obtain ⟨output, houtput⟩ := List.length_eq_one_iff.mp hsingle
    rw [houtput] at hbind
    obtain rfl := Except.ok.inj hbind
    have hresultNumeric := Op.evaluate_numeric htuple hlists.numbers hnumeric result hresult
    refine ⟨⟨operands, result, [result], hvalues, hresult, .whole hsingle htuple, ?_, ?_⟩, ?_⟩
    · rw [houtput]
      exact @Environment.binds_foldl_insert environment [output] [result] rfl
    · simpa using hresultNumeric
    · exact hoperands.insert output hresultNumeric
  · rw [Environment.bind_of_length_ne_one hsingle] at hbind
    obtain ⟨parts, hparts, hreached⟩ := Result.bind_eq_ok_iff.mp hbind
    obtain rfl := Except.ok.inj hreached
    have hall : parts.length = node.outputs.length ∧ ∀ part ∈ parts, part.isNumeric = true := by
      cases htuple : node.op.yieldsTuple with
      | true =>
        obtain ⟨pieces, hpieces, rfl⟩ := Environment.exists_pieces_of_evaluate htuple hresult
        obtain rfl := Except.ok.inj hparts
        exact ⟨length_pieces_eq harity (hlists.sizes htuple) houtputs hpieces,
          Evaluation.numeric_of_piecesOf hpieces⟩
      | false =>
        exact ⟨hrows htuple hsingle operands result parts hvalues hresult hparts,
          Value.parts_numeric (Op.evaluate_numeric htuple hlists.numbers hnumeric result hresult)
            parts hparts⟩
    refine ⟨⟨operands, result, parts, hvalues, hresult, .parts (.inl hsingle) hparts hall.1,
      environment.binds_foldl_insert hall.1, hall.2⟩, hoperands.foldl_insert ?_⟩
    intro entry hentry
    exact hall.2 entry.2 (List.of_mem_zip hentry).2

end OneNode

/-! ### Whole evaluations -/

section Evaluations

/-- Whether an environment is what names stand for before a node of a graph, in an evaluation that
starts from another one. -/
def Graph.Reaches (graph : Graph) (ops : List Op) (initial : Environment) (node : Node)
    (environment : Environment) : Prop :=
  ∃ before after, graph.nodes = before ++ node :: after ∧
    before.foldlM (Environment.step ops) initial = .ok environment

/-- Whether a result that is unpacked and no list of pieces has as many parts as its node has
outputs, in an evaluation that starts from an environment. -/
def Graph.UnpacksEvenly (graph : Graph) (ops : List Op) (initial : Environment) : Prop :=
  ∀ node environment, graph.Reaches ops initial node environment → node.op.yieldsTuple = false →
    node.outputs.length ≠ 1 → ∀ operands result parts,
      node.inputs.mapM environment.value = .ok operands →
      node.op.evaluate operands node.attrs = .ok result → result.parts = .ok parts →
      parts.length = node.outputs.length

/-- Whether no node of a graph splits off a single piece. -/
def Graph.SplitsApart (graph : Graph) : Prop :=
  ∀ node ∈ graph.nodes, node.op.yieldsTuple = true → node.outputs.length ≠ 1

variable {checks : Checks} {ops : List Op} {graph : Graph} {severity : Severity}
  {graphName : Option String} {found : List Finding} {inputs : OrderedMap String Strided}
  {initial final environment reached : Environment} {node : Node}

theorem Graph.Reaches.mem (hreaches : graph.Reaches ops initial node environment) :
    node ∈ graph.nodes := by
  obtain ⟨before, after, hnodes, _⟩ := hreaches
  rw [hnodes]
  exact List.mem_append_right before (List.mem_cons_self ..)

/-- An evaluation that comes to its end goes on from every node that it reaches. -/
theorem Graph.Reaches.exists_step (hreaches : graph.Reaches ops initial node environment)
    (hfinal : graph.nodes.foldlM (Environment.step ops) initial = .ok final) :
    ∃ reached, environment.step ops node = .ok reached := by
  obtain ⟨before, after, hnodes, hbefore⟩ := hreaches
  rw [hnodes, List.foldlM_append, hbefore, Result.ok_bind, List.foldlM_cons] at hfinal
  obtain ⟨reached, hstep, -⟩ := Result.bind_eq_ok_iff.mp hfinal
  exact ⟨reached, hstep⟩

/-- An evaluation that comes to its end reaches every node. -/
theorem exists_reaches_of_mem
    (hfinal : graph.nodes.foldlM (Environment.step ops) initial = .ok final)
    (hnode : node ∈ graph.nodes) :
    ∃ environment, graph.Reaches ops initial node environment := by
  obtain ⟨before, after, hnodes⟩ := List.mem_iff_append.mp hnode
  rw [hnodes, List.foldlM_append] at hfinal
  obtain ⟨environment, hbefore, -⟩ := Result.bind_eq_ok_iff.mp hfinal
  exact ⟨environment, before, after, hnodes, hbefore⟩

/-- A statement that is followed unpacks a result into as many parts as its node has outputs. -/
theorem Environment.Follows.length_parts (hfollows : environment.Follows reached node)
    (hseveral : node.outputs.length ≠ 1) {operands parts : List Value} {result : Value}
    (hoperands : node.inputs.mapM environment.value = .ok operands)
    (hresult : node.op.evaluate operands node.attrs = .ok result)
    (hparts : result.parts = .ok parts) : parts.length = node.outputs.length := by
  obtain ⟨others, found, values, hothers, hfound, hassigns, -⟩ := hfollows
  obtain rfl := Except.ok.inj (hoperands.symm.trans hothers)
  obtain rfl := Except.ok.inj (hresult.symm.trans hfound)
  cases hassigns with
  | whole hsingle => exact absurd hsingle hseveral
  | parts _ hvalues hlength =>
    obtain rfl := Except.ok.inj (hparts.symm.trans hvalues)
    exact hlength

section Following

variable (hbuilt : graph.Built)
  (harities : ∀ node ∈ graph.nodes, Structure.splitArity graph node = .ok [])
  (hlists : ∀ node ∈ graph.nodes, node.ListsSoundly) (hsplits : graph.SplitsApart)
  (hevenly : graph.UnpacksEvenly ops initial)

include hbuilt harities hlists hsplits hevenly

/-- Every statement that finds names of arrays and scalars only is followed. -/
theorem follows_of_reaches (hreaches : graph.Reaches ops initial node environment)
    (hnumeric : environment.Numeric) (hstep : environment.step ops node = .ok reached) :
    environment.Follows reached node ∧ reached.Numeric :=
  follows_of_step (harities node hreaches.mem) (hlists node hreaches.mem) hnumeric
    (hsplits node hreaches.mem) (hbuilt.outputs_ne_nil node hreaches.mem)
    (hevenly node environment hreaches) hstep

/-- Names stand for arrays and scalars after any number of nodes. -/
theorem numeric_of_foldlM (hinitial : initial.Numeric) {before after : List Node}
    (hnodes : graph.nodes = before ++ after)
    (hbefore : before.foldlM (Environment.step ops) initial = .ok environment) :
    environment.Numeric := by
  -- The induction adds nodes at the end: the environment that the last node finds is the one that
  -- the nodes before it leave.
  induction before using List.reverseRecOn generalizing after environment with
  | nil =>
    obtain rfl := Except.ok.inj hbefore
    exact hinitial
  | append_singleton start node ih =>
    rw [List.foldlM_append] at hbefore
    obtain ⟨earlier, hearlier, hlast⟩ := Result.bind_eq_ok_iff.mp hbefore
    rw [List.foldlM_cons] at hlast
    obtain ⟨reached, hstep, hlast⟩ := Result.bind_eq_ok_iff.mp hlast
    obtain rfl := Except.ok.inj hlast
    rw [List.append_assoc] at hnodes
    exact (follows_of_reaches hbuilt harities hlists hsplits hevenly
      ⟨start, after, hnodes, hearlier⟩ (ih hnodes hearlier) hstep).2

end Following

/-- An evaluation follows every statement exactly if no node splits off a single piece and every
other result that is unpacked has a part for each output, and it then returns arrays and scalars
only. Assumes: the graph is built and passes checks among which is the structure check, it lists
sizes and factors soundly, and every node can be evaluated. -/
theorem follows_iff_several_pieces (hbuilt : graph.Built)
    (hmem : ⟨"structure", Structure.findings ops⟩ ∈ checks.onGraph)
    (hpassed : checks.runOnGraph .preCodegen graph (some severity) graphName = .ok found)
    (hlists : ∀ node ∈ graph.nodes, node.ListsSoundly)
    (hinitial : initialEnvironment graph inputs = .ok initial)
    (hfinal : graph.nodes.foldlM (Environment.step ops) initial = .ok final) :
    ((∀ node environment reached, graph.Reaches ops initial node environment →
        environment.step ops node = .ok reached → environment.Follows reached node) ↔
      graph.SplitsApart ∧ graph.UnpacksEvenly ops initial) ∧
    (graph.SplitsApart → graph.UnpacksEvenly ops initial →
      ∀ outputs, evaluate ops graph inputs = .ok outputs → outputs.Numeric) := by
  have harities := Structure.arities_of_findings (findings_of_runOnGraph hmem hpassed)
  have hstart := Environment.numeric_of_initialEnvironment initial hinitial
  refine ⟨⟨fun hfollows ↦ ⟨fun node hnode htuple hsingle ↦ ?_,
    fun node environment hreaches htuple hseveral operands result parts hoperands hresult hparts ↦
      ?_⟩, fun ⟨hsplits, hevenly⟩ node environment reached hreaches hstep ↦ ?_⟩,
    fun hsplits hevenly outputs houtputs ↦ ?_⟩
  · obtain ⟨environment, hreaches⟩ := exists_reaches_of_mem hfinal hnode
    obtain ⟨reached, hstep⟩ := hreaches.exists_step hfinal
    exact Environment.not_follows_of_single_piece htuple hsingle hstep
      (hfollows node environment reached hreaches hstep)
  · obtain ⟨reached, hstep⟩ := hreaches.exists_step hfinal
    exact (hfollows node environment reached hreaches hstep).length_parts hseveral hoperands hresult
      hparts
  · obtain ⟨before, after, hnodes, hbefore⟩ := hreaches
    have hnumeric := numeric_of_foldlM hbuilt harities hlists hsplits hevenly hstart hnodes hbefore
    exact (follows_of_reaches hbuilt harities hlists hsplits hevenly
      ⟨before, after, hnodes, hbefore⟩ hnumeric hstep).1
  · have hnumeric := numeric_of_foldlM hbuilt harities hlists hsplits hevenly hstart
      (List.append_nil _).symm hfinal
    exact Environment.Numeric.evaluate hinitial hfinal hnumeric houtputs

end Evaluations

/-! ### Two evaluations -/

/-- The attributes of a split along the first dimension. -/
def splitAttrs (sizes : Attr) : Attrs := ⟨[("sizes", sizes), ("dim", .int 0)]⟩

/-- The numbers from one to four as the value of `x`. -/
def firstFour : OrderedMap String Strided :=
  ⟨[("x", Tensor.tabulate .float32 [4] fun index ↦
    (Word.ofInt .int64 (index.getD 0 0 + 1)).convert .float32)]⟩

/-- A graph that splits a value and then its second piece, where the name of the first piece is
bound again, and returns a product of pieces. -/
def splitTwice : Graph :=
  (Graph.make "split_twice"
    [.input "x" [.int 4] "float32", .tensor "a" [.int 1] "float32", .tensor "b" [.int 3] "float32",
      .tensor "c" [.int 2] "float32", .tensor "y" [.int 2] "float32",
      .node .split ["x"] ["a", "b"] (splitAttrs (.list [.int 1, .int 3])),
      .node .split ["b"] ["a", "c"] (splitAttrs (.tuple [.int 1, .int 2])),
      .node .mul ["a", "c"] ["y"] {}] ["y", "a"]).toOption.get rfl

theorem built_splitTwice : splitTwice.Built := (Graph.built_make _ _ _).get rfl

/-- Both splits and the product bind their outputs anew, and two arrays are returned. -/
theorem follows_iff_several_pieces_splitTwice :
    ∃ initial outputs, initialEnvironment splitTwice firstFour = .ok initial ∧
      (∀ node environment reached, splitTwice.Reaches Op.catalog initial node environment →
        environment.step Op.catalog node = .ok reached → environment.Follows reached node) ∧
      evaluate Op.catalog splitTwice firstFour = .ok outputs ∧ outputs.keys = ["y", "a"] ∧
      outputs.Numeric := by
  have hpassed : ((standardChecks Op.catalog).runOnGraph .preCodegen splitTwice (some .error)
      none).toOption.isSome = true := by decide +kernel
  have hsizes : ∀ node ∈ splitTwice.nodes, node.op.yieldsTuple = true →
      ((node.attrs.find? "sizes").bind Attr.flatLength?).isSome = true := by decide +kernel
  have hnumbers : ∀ node ∈ splitTwice.nodes, node.op = .mul →
      node.attrs.multipliesNumbers = true := by decide +kernel
  have hsplits : ∀ node ∈ splitTwice.nodes, node.op.yieldsTuple = true →
      node.outputs.length ≠ 1 := by decide +kernel
  have hsingle : ∀ node ∈ splitTwice.nodes, node.op.yieldsTuple = false →
      node.outputs.length = 1 := by decide +kernel
  have hkeys : (evaluate Op.catalog splitTwice firstFour).toOption.map OrderedMap.keys =
      some ["y", "a"] := by decide +kernel
  obtain ⟨found, hfound⟩ := Result.returns_of_isSome hpassed
  obtain ⟨outputs, hsome, hkeys⟩ := Option.map_eq_some_iff.mp hkeys
  have houtputs := Result.eq_ok_of_toOption_eq_some hsome
  obtain ⟨initial, hinitial, hrest⟩ := Result.bind_eq_ok_iff.mp houtputs
  obtain ⟨final, hfinal, _⟩ := Result.bind_eq_ok_iff.mp hrest
  have hevenly : splitTwice.UnpacksEvenly Op.catalog initial :=
    fun node _ hreaches htuple hseveral ↦ absurd (hsingle node hreaches.mem htuple) hseveral
  have hfollows := follows_iff_several_pieces built_splitTwice (List.mem_cons_self ..) hfound
    (fun node hnode ↦ ⟨hsizes node hnode, hnumbers node hnode⟩) hinitial hfinal
  exact ⟨initial, outputs, hinitial, hfollows.1.mpr ⟨hsplits, hevenly⟩, houtputs, hkeys,
    hfollows.2 hsplits hevenly outputs houtputs⟩

/-- A graph that splits off a single piece, all of its input. -/
def singlePiece : Graph :=
  (Graph.make "single_piece"
    [.input "x" [.int 4] "float32", .tensor "p" [.int 4] "float32",
      .node .split ["x"] ["p"] (splitAttrs (.list [.int 4]))] ["p"]).toOption.get rfl

/-- A graph without findings returns a list where it splits off a single piece. -/
theorem single_piece_returns_list :
    singlePiece.Built ∧
      (standardChecks Op.catalog).runOnGraph .preCodegen singlePiece (some .info) none = .ok [] ∧
      ∃ outputs value, evaluate Op.catalog singlePiece firstFour = .ok outputs ∧
        outputs.find? "p" = some value ∧ value.isSequence = true ∧ value.isNumeric = false := by
  have hbuilt : singlePiece.Built := (Graph.built_make _ _ _).get rfl
  have hfound : ((standardChecks Op.catalog).runOnGraph .preCodegen singlePiece (some .info)
      none).toOption = some [] := by decide +kernel
  have hlist : (evaluate Op.catalog singlePiece firstFour).toOption.bind (fun outputs ↦
      (outputs.find? "p").map fun value ↦ (value.isSequence, value.isNumeric)) =
      some (true, false) := by decide +kernel
  obtain ⟨outputs, hsome, hvalue⟩ := Option.bind_eq_some_iff.mp hlist
  obtain ⟨value, hvalue, hkinds⟩ := Option.map_eq_some_iff.mp hvalue
  obtain ⟨hsequence, hnumeric⟩ := Prod.mk.inj hkinds
  exact ⟨hbuilt, Result.eq_ok_of_toOption_eq_some hfound, outputs, value,
    Result.eq_ok_of_toOption_eq_some hsome, hvalue, hsequence, hnumeric⟩

end Handover
