import Handover.Proofs.Evaluation.Binding
import Handover.Proofs.Evaluation.StoredAttributes
import Handover.Proofs.Graph.Calls
import Handover.Proofs.Storage.Loading

/-!
# Evaluating a graph that is loaded

A graph that is loaded after it was saved has the stored attributes of the one that was built, so
its evaluation follows that of the other node by node (`Environment.step_stored`). It can be
evaluated exactly if no node reduces along a tuple of axes, and then the results are the stored ones
(`reloaded_iff_no_tuple`): a document has no tuples, and the list that comes back for one is no
choice of axes (`tuple_axes_not_reloaded`). The constants must stand row by row with the lowest
bytes first, for the files keep neither their layout nor the order of their bytes, and sums are
formed in the order of memory (`column_order_not_reloaded`).
-/

set_option autoImplicit false
set_option relaxedAutoImplicit false

namespace Handover

open Result (Mirrors mirrors_error mirrors_pure)

/-! ### Environments -/

namespace Environment

/-- The environment as it is where the attributes were stored. -/
def stored (environment : Environment) : Environment :=
  OrderedMap.mapValues Value.stored environment

theorem stored_insert (environment : Environment) (name : String) (value : Value) :
    stored (environment.insert name value) = environment.stored.insert name value.stored :=
  OrderedMap.mapValues_insert Value.stored environment name value

/-- An environment of arrays and scalars is a stored one. -/
theorem stored_of_numeric {environment : Environment}
    (hnumeric : ∀ entry ∈ environment.entries, entry.2.isNumeric = true) :
    environment.stored = environment := by
  refine congrArg OrderedMap.mk ((List.map_congr_left fun entry hentry ↦ ?_).trans (List.map_id _))
  rw [Value.stored_of_isNumeric (hnumeric entry hentry)]
  rfl

theorem value_stored (environment : Environment) (name : String) :
    (environment.value name).Mirrors Value.stored (environment.stored.value name) := by
  unfold value
  rw [stored, OrderedMap.find?_mapValues]
  cases environment.find? name with
  | none => exact mirrors_error _ _ _
  | some value => exact mirrors_pure Value.stored value

theorem bind_stored (environment : Environment) (outputs : List String) (result : Value) :
    (environment.bind outputs result).Mirrors stored
      (environment.stored.bind outputs result.stored) := by
  by_cases hlength : outputs.length = 1
  · obtain ⟨output, rfl⟩ := List.length_eq_one_iff.mp hlength
    have hbound := mirrors_pure stored (environment.insert output result)
    rw [stored_insert] at hbound
    exact hbound
  · rw [bind_of_length_ne_one hlength, bind_of_length_ne_one hlength]
    refine (Value.parts_stored result).bind fun parts _ ↦ ?_
    have hbound := mirrors_pure stored ((outputs.zip parts).foldl
      (fun bound entry ↦ bound.insert entry.1 entry.2) environment)
    rw [stored, OrderedMap.mapValues_foldl_insert] at hbound
    rwa [List.zip_map_right]

theorem step_of_contains {ops : List Op} {node : Node} (hdefined : ops.contains node.op = true)
    (environment : Environment) : environment.step ops node = (do
      let operands ← node.inputs.mapM environment.value
      environment.bind node.outputs (← node.op.evaluate operands node.attrs)) := by
  unfold step
  rw [hdefined]
  rfl

theorem step_of_not_contains {ops : List Op} {node : Node}
    (hdefined : ops.contains node.op = false) (environment : Environment) :
    environment.step ops node = complains (.undefinedOp node.op) := by
  unfold step
  rw [hdefined]
  rfl

/-- A node with stored attributes gives the stored results, unless it reduces along a tuple. -/
theorem step_stored (ops : List Op) {node : Node} (hattrs : node.attrs.Steady)
    (hreduces : node.op.reducesTuple node.attrs = false) (environment : Environment) :
    (environment.step ops node).Mirrors stored (environment.stored.step ops node.stored) := by
  have hoperands : (node.inputs.mapM environment.value).Mirrors (List.map Value.stored)
      (node.inputs.mapM environment.stored.value) :=
    Mirrors.mapM fun name _ ↦ value_stored environment name
  cases hdefined : ops.contains node.op with
  | false =>
    rw [step_of_not_contains hdefined]
    exact mirrors_error _ _ _
  | true =>
    have hstored : ops.contains node.stored.op = true := hdefined
    rw [step_of_contains hdefined, step_of_contains hstored]
    exact hoperands.bind fun operands _ ↦
      (Op.evaluate_stored hattrs hreduces operands).bind fun result _ ↦
        bind_stored environment node.outputs result

/-- A node that reduces along a tuple cannot be evaluated with stored attributes. -/
theorem not_returns_step_stored (ops : List Op) {node : Node}
    (hreduces : node.op.reducesTuple node.attrs = true) (environment : Environment) :
    ¬ (environment.step ops node.stored).Returns := by
  rintro ⟨reached, hreached⟩
  obtain ⟨operands, result, -, hresult, -⟩ := step_eq_ok hreached
  exact Op.not_returns_of_reducesTuple hreduces operands ⟨result, hresult⟩

variable {ops : List Op} {nodes : List Node}

/-- Some nodes with stored attributes give the stored results, unless one of them reduces along a
tuple. -/
theorem foldlM_step_stored (hattrs : ∀ node ∈ nodes, node.attrs.Steady)
    (hreduces : ∀ node ∈ nodes, node.op.reducesTuple node.attrs = false)
    (environment : Environment) :
    (nodes.foldlM (step ops) environment).Mirrors stored
      ((nodes.map Node.stored).foldlM (step ops) environment.stored) := by
  rw [List.foldlM_map]
  exact Mirrors.foldlM (fun environment node hnode ↦
    step_stored ops (hattrs node hnode) (hreduces node hnode) environment) environment

/-- The identifiers of the nodes have no part in it. -/
theorem foldlM_step_numberedFrom (ops : List Op) (next : Nat) (nodes : List Node)
    (environment : Environment) :
    ((Graph.numberedFrom next nodes).map Node.stored).foldlM (step ops) environment =
      (nodes.map Node.stored).foldlM (step ops) environment := by
  induction nodes generalizing next environment with
  | nil => rfl
  | cons node rest ih => exact congrArg (_ >>= ·) (funext (ih (next + 1)))

/-- Where one of the nodes reduces along a tuple, it is reached and fails. -/
theorem not_returns_foldlM_step_stored (hattrs : ∀ node ∈ nodes, node.attrs.Steady)
    (hreduces : ∃ node ∈ nodes, node.op.reducesTuple node.attrs = true)
    {environment final : Environment}
    (hfinal : nodes.foldlM (step ops) environment = .ok final) :
    ¬ ((nodes.map Node.stored).foldlM (step ops) environment.stored).Returns := by
  -- The two runs agree up to the first node that reduces along a tuple.
  induction nodes generalizing environment with
  | nil => simp at hreduces
  | cons node rest ih =>
    rw [List.foldlM_cons] at hfinal
    obtain ⟨reached, hreached, hfinal⟩ := Result.bind_eq_ok_iff.mp hfinal
    rintro ⟨last, hlast⟩
    rw [List.map_cons, List.foldlM_cons] at hlast
    obtain ⟨again, hagain, hlast⟩ := Result.bind_eq_ok_iff.mp hlast
    cases htuple : node.op.reducesTuple node.attrs with
    | true => exact not_returns_step_stored ops htuple environment.stored ⟨again, hagain⟩
    | false =>
      have hstep := step_stored ops (hattrs node (List.mem_cons_self ..)) htuple environment
        reached hreached
      obtain rfl := Except.ok.inj (hagain.symm.trans hstep)
      refine ih (fun other hother ↦ hattrs other (List.mem_cons_of_mem _ hother)) ?_ hfinal
        ⟨last, hlast⟩
      obtain ⟨other, hother, htrue⟩ := hreduces
      rcases List.mem_cons.mp hother with rfl | hother
      · rw [htuple] at htrue
        cases htrue
      · exact ⟨other, hother, htrue⟩

end Environment

/-! ### Graphs -/

section Graphs

open Environment (step)

variable {graph loaded : Graph} {ops : List Op} {inputs : OrderedMap String Strided}
  {outputs : Environment}

/-- The same inputs and constants are bound, if the constants stand row by row with the lowest bytes
first. -/
theorem initialEnvironment_restored (hrestored : graph.Restored none loaded)
    (hplain : ∀ name ∈ graph.constants, ∀ data, graph.data? name = some data → data.IsPlain) :
    (initialEnvironment graph inputs).Mirrors Environment.stored
      (initialEnvironment loaded inputs) := by
  have hinput (environment : Environment) (name : String) (_ : name ∈ graph.inputs) :
      (Environment.bindInput inputs environment name).Mirrors Environment.stored
        (Environment.bindInput inputs environment.stored name) := by
    unfold Environment.bindInput
    cases inputs.find? name with
    | none => exact mirrors_error _ _ _
    | some tensor =>
      have hbound := mirrors_pure Environment.stored (environment.insert name (.array tensor))
      rwa [Environment.stored_insert] at hbound
  have hconstant (environment : Environment) (name : String) (hname : name ∈ graph.constants) :
      (Environment.bindConstant graph environment name).Mirrors Environment.stored
        (Environment.bindConstant loaded environment.stored name) := by
    unfold Environment.bindConstant Graph.tensor
    rw [hrestored.tensors]
    cases hinfo : graph.tensors.find? name with
    | none => exact mirrors_error _ _ _
    | some info =>
      dsimp only [Option.map_some]
      rw [if_pos hname, Result.ok_bind, Result.ok_bind]
      cases hdata : info.buffer with
      | none => exact mirrors_error _ _ _
      | some data =>
        have hkept : data.IsPlain := hplain name hname data (by simp [Graph.data?, hinfo, hdata])
        have hbound := mirrors_pure Environment.stored (environment.insert name (.array data))
        rw [Environment.stored_insert] at hbound
        rwa [Option.map_some, Strided.restored_none_of_isPlain hkept]
  unfold initialEnvironment
  rw [hrestored.inputs, hrestored.constants]
  exact (Mirrors.foldlM hinput {}).bind fun bound _ ↦ Mirrors.foldlM hconstant bound

/-- A graph that is restored can be evaluated exactly if no node reduces along a tuple, and it gives
the stored results. -/
theorem evaluate_restored (hrestored : graph.Restored none loaded)
    (hplain : ∀ name ∈ graph.constants, ∀ data, graph.data? name = some data → data.IsPlain)
    (hattrs : ∀ node ∈ graph.nodes, node.attrs.Steady)
    (houtputs : evaluate ops graph inputs = .ok outputs) :
    ((∀ node ∈ graph.nodes, node.op.reducesTuple node.attrs = false) →
      evaluate ops loaded inputs = .ok outputs.stored) ∧
    ((∃ node ∈ graph.nodes, node.op.reducesTuple node.attrs = true) →
      ¬ (evaluate ops loaded inputs).Returns) := by
  obtain ⟨initial, hinitial, houtputs⟩ := Result.bind_eq_ok_iff.mp houtputs
  obtain ⟨final, hfinal, houtputs⟩ := Result.bind_eq_ok_iff.mp houtputs
  have hstart := initialEnvironment_restored hrestored hplain initial hinitial
  have hevaluate : evaluate ops loaded inputs = (do
      let final ← (graph.nodes.map Node.stored).foldlM (step ops) initial.stored
      let outputs ← graph.outputs.mapM fun name ↦ do return (name, ← final.value name)
      return OrderedMap.ofList outputs) := by
    unfold evaluate
    rw [hstart, Result.ok_bind, hrestored.nodes, hrestored.outputs]
    exact congrArg (· >>= _) (Environment.foldlM_step_numberedFrom ops 0 graph.nodes initial.stored)
  rw [hevaluate]
  constructor
  · intro hreduces
    have hlast := Environment.foldlM_step_stored hattrs hreduces initial final hfinal
    have hvalues (name : String) (_ : name ∈ graph.outputs) :
        (do return (name, ← final.value name)).Mirrors
          (fun entry : String × Value ↦ (entry.1, entry.2.stored))
          (do return (name, ← final.stored.value name)) :=
      (Environment.value_stored final name).bind fun value _ ↦ mirrors_pure _ (name, value)
    obtain ⟨entries, hentries, houtputs⟩ := Result.bind_eq_ok_iff.mp houtputs
    obtain rfl := Except.ok.inj houtputs
    rw [hlast, Result.ok_bind, Mirrors.mapM hvalues entries hentries, Environment.stored,
      OrderedMap.mapValues_ofList]
    rfl
  · rintro hreduces ⟨again, hagain⟩
    obtain ⟨last, hlast, -⟩ := Result.bind_eq_ok_iff.mp hagain
    exact Environment.not_returns_foldlM_step_stored hattrs hreduces hfinal ⟨last, hlast⟩

/-- The attributes of a node that is built have no scalars. -/
theorem Graph.Built.steady (hbuilt : graph.Built)
    (hnans : ∀ node ∈ graph.nodes, ∀ entry ∈ node.attrs.entries, entry.2.hasPlainNaNs = true) :
    ∀ node ∈ graph.nodes, node.attrs.Steady := by
  have hplain : ∀ node ∈ graph.nodes, ∀ entry ∈ node.attrs.entries, entry.2.plain = entry.2 := by
    refine hbuilt.forall_node fun graph next op inputs outputs attrs _ entry hentry ↦ ?_
    obtain ⟨original, -, rfl⟩ := List.mem_map.mp hentry
    exact Attr.plain_plain original.2
  exact fun node hnode entry hentry ↦
    ⟨hplain node hnode entry hentry, hnans node hnode entry hentry⟩

/-- A graph whose constants stand row by row with the lowest bytes first, saved with its weights as
they are and loaded again, can be evaluated exactly if none of its nodes reduces along a tuple of
axes. It gives the stored results, which are the same if they are arrays and scalars. -/
theorem reloaded_iff_no_tuple {files saved : Files} {stem : String} (hbuilt : graph.Built)
    (hlegible : graph.toRecord.isLegible 0 = true)
    (hplain : ∀ name ∈ graph.constants, ∀ data, graph.data? name = some data → data.IsPlain)
    (hnans : ∀ node ∈ graph.nodes, ∀ entry ∈ node.attrs.entries, entry.2.hasPlainNaNs = true)
    (hfits : graph.Fits) (hreached : (Files.pathAt stem ".weights" >>= Files.nameOf).Returns)
    (hsaved : graph.save files stem none = (saved, .ok ()))
    (houtputs : evaluate ops graph inputs = .ok outputs) :
    ∃ loaded, Graph.load saved stem = .ok loaded ∧
      ((evaluate ops loaded inputs).Returns ↔
        ∀ node ∈ graph.nodes, node.op.reducesTuple node.attrs = false) ∧
      ∀ again, evaluate ops loaded inputs = .ok again → again = outputs.stored ∧
        ((∀ entry ∈ outputs.entries, entry.2.isNumeric = true) → again = outputs) := by
  obtain ⟨loaded, hloaded, hrestored⟩ := load_save hbuilt hlegible hfits hreached hsaved
  obtain ⟨hreturns, hfails⟩ := evaluate_restored hrestored hplain (hbuilt.steady hnans) houtputs
  have hreduces (hagain : (evaluate ops loaded inputs).Returns) :
      ∀ node ∈ graph.nodes, node.op.reducesTuple node.attrs = false := by
    intro node hnode
    by_contra htuple
    exact hfails ⟨node, hnode, by simpa using htuple⟩ hagain
  refine ⟨loaded, hloaded, ⟨hreduces, fun hnone ↦ ⟨_, hreturns hnone⟩⟩, fun again hagain ↦ ?_⟩
  obtain rfl := Except.ok.inj (hagain.symm.trans (hreturns (hreduces ⟨again, hagain⟩)))
  exact ⟨rfl, Environment.stored_of_numeric⟩

end Graphs

/-! ### Two graphs with tuples -/

/-- The numbers from one to four in two rows as the value of `x`. -/
def twoRows : OrderedMap String Strided :=
  ⟨[("x", Tensor.tabulate .int64 [2, 2] fun index ↦
    Word.ofInt .int64 (2 * index.getD 0 0 + index.getD 1 0 + 1))]⟩

/-- A graph that puts the rows of a tensor behind one another, in a shape which is a tuple, scales
them by constant weights and adds them up. -/
def tupleShape : Graph :=
  (Graph.make "tuple_shape"
    [.input "x" [.int 2, .int 2] "int64",
      .constant "w" (Tensor.tabulate .int64 [4] fun index ↦ Word.ofInt .int64 (index.getD 0 0)),
      .tensor "r" [.int 4] "int64", .tensor "p" [.int 4] "int64", .tensor "y" [] "int64",
      .node .reshape ["x"] ["r"] ⟨[("shape", .tuple [.int 4])]⟩, .node .mul ["r", "w"] ["p"] {},
      .node .sum ["p"] ["y"] ⟨[("axis", .int 0)]⟩] ["y"]).toOption.get rfl

/-- A tuple as a shape comes back as a list, and the loaded graph gives the same results. -/
theorem reloaded_iff_no_tuple_tupleShape :
    ∃ loaded outputs, Graph.load (tupleShape.save {} "g" none).1 "g" = .ok loaded ∧
      evaluate Op.catalog tupleShape twoRows = .ok outputs ∧
      evaluate Op.catalog loaded twoRows = .ok outputs := by
  have hbuilt : tupleShape.Built := (Graph.built_make _ _ _).get rfl
  have hlegible : tupleShape.toRecord.isLegible 0 = true := by decide +kernel
  have hnans : ∀ node ∈ tupleShape.nodes, ∀ entry ∈ node.attrs.entries,
      entry.2.hasPlainNaNs = true := by decide +kernel
  have hreduces : ∀ node ∈ tupleShape.nodes, node.op.reducesTuple node.attrs = false := by
    decide +kernel
  have hdata : ∀ name ∈ tupleShape.constants, ∀ data ∈ tupleShape.data? name,
      data.IsPlain ∧ data.tensor.Fits := by decide +kernel
  have hfits : tupleShape.Fits :=
    Graph.fits_of_toOption (fun name hname data hfound ↦ (hdata name hname data hfound).2)
      (by decide +kernel)
  have hsaved : (tupleShape.save {} "g" none).2.toOption = some () := by decide +kernel
  have hnumeric : ((evaluate Op.catalog tupleShape twoRows).toOption.map fun outputs ↦
      decide (∀ entry ∈ outputs.entries, entry.2.isNumeric = true)) = some true := by
    decide +kernel
  obtain ⟨outputs, hsome, hnumeric⟩ := Option.map_eq_some_iff.mp hnumeric
  have houtputs := Result.eq_ok_of_toOption_eq_some hsome
  obtain ⟨loaded, hloaded, hreturns, hsame⟩ := reloaded_iff_no_tuple hbuilt hlegible
    (fun name hname data hfound ↦ (hdata name hname data hfound).1) hnans hfits
    (Result.returns_of_isSome (by decide +kernel))
    (Prod.ext rfl (Result.eq_ok_of_toOption_eq_some hsaved)) houtputs
  obtain ⟨again, hagain⟩ := hreturns.mpr hreduces
  rw [(hsame again hagain).2 (of_decide_eq_true hnumeric)] at hagain
  exact ⟨loaded, outputs, hloaded, houtputs, hagain⟩

/-- A graph that sums a tensor along two axes at once. -/
def tupleAxes : Graph :=
  (Graph.make "tuple_axes"
    [.input "x" [.int 2, .int 2] "float32", .tensor "y" [] "float32",
      .node .sum ["x"] ["y"] ⟨[("axis", .tuple [.int 0, .int 1])]⟩] ["y"]).toOption.get rfl

/-- A graph with a tuple of axes is saved and loaded, and only the one that was built can be
evaluated. -/
theorem tuple_axes_not_reloaded :
    tupleAxes.Built ∧ (tupleAxes.save {} "g" none).2 = .ok () ∧
      (evaluate Op.catalog tupleAxes twoRows).Returns ∧
      ∃ loaded, Graph.load (tupleAxes.save {} "g" none).1 "g" = .ok loaded ∧
        ¬ (evaluate Op.catalog loaded twoRows).Returns := by
  have hbuilt : tupleAxes.Built := (Graph.built_make _ _ _).get rfl
  have hlegible : tupleAxes.toRecord.isLegible 0 = true := by decide +kernel
  have hnans : ∀ node ∈ tupleAxes.nodes, ∀ entry ∈ node.attrs.entries,
      entry.2.hasPlainNaNs = true := by decide +kernel
  have htuple : ∃ node ∈ tupleAxes.nodes, node.op.reducesTuple node.attrs = true := by
    decide +kernel
  have hfits : tupleAxes.Fits := Graph.fits_of_toOption nofun (by decide +kernel)
  have hsaved : (tupleAxes.save {} "g" none).2 = .ok () :=
    Result.eq_ok_of_toOption_eq_some (by decide +kernel)
  obtain ⟨outputs, houtputs⟩ : (evaluate Op.catalog tupleAxes twoRows).Returns :=
    Result.returns_of_isSome (by decide +kernel)
  obtain ⟨loaded, hloaded, hrestored⟩ := load_save hbuilt hlegible hfits
    (Result.returns_of_isSome (by decide +kernel)) (Prod.ext rfl hsaved)
  exact ⟨hbuilt, hsaved, ⟨outputs, houtputs⟩, loaded, hloaded,
    (evaluate_restored hrestored nofun (hbuilt.steady hnans) houtputs).2 htuple⟩

/-! ### A constant that stands column by column -/

/-- The bits of a scalar. -/
def Value.bits? : Value → Option Nat
  | .scalar value => some value.word.toNat
  | _ => none

/-- Two columns of which the first stands before the second. In this order their elements add up to
two, and row by row to one. -/
def twoColumns : Strided where
  tensor := ⟨.float32, [2, 2], #[0x4b800000, 0x3f800000, 0xcb800000, 0x3f800000], rfl⟩
  strides := [1, 2]

/-- A graph that adds up the elements of a constant. -/
def totalOf (data : Strided) : Result Graph :=
  Graph.make "total"
    [.constant "w" data, .tensor "y" [] "float32",
      .node .sum ["w"] ["y"] ⟨[("axis", .null)]⟩] ["y"]

/-- The graph that adds up two columns. -/
def columnTotal : Graph := (totalOf twoColumns).toOption.get rfl

/-- The graph that adds up the same elements row by row. -/
def rowTotal : Graph := (totalOf twoColumns.tensor).toOption.get rfl

/-- A constant comes back row by row, and then its elements are added up in that order. -/
theorem column_order_not_reloaded :
    columnTotal.Built ∧ (columnTotal.save {} "g" none).2 = .ok () ∧
      ∃ loaded outputs again, Graph.load (columnTotal.save {} "g" none).1 "g" = .ok loaded ∧
        evaluate Op.catalog columnTotal {} = .ok outputs ∧
        evaluate Op.catalog loaded {} = .ok again ∧
        (outputs.find? "y").bind Value.bits? = some 0x40000000 ∧
        (again.find? "y").bind Value.bits? = some 0x3f800000 := by
  have hbuilt : columnTotal.Built := (Graph.built_make _ _ _).get rfl
  have hfits : columnTotal.FitsIn none :=
    Graph.fitsIn_of_toOption (by decide +kernel) (by decide +kernel) (by decide +kernel)
  have hsaved : (columnTotal.save {} "g" none).2 = .ok () :=
    Result.eq_ok_of_toOption_eq_some (by decide +kernel)
  obtain ⟨loaded, hloaded, hrestored⟩ := load_save_in hbuilt (by decide +kernel) hfits
    (Result.returns_of_isSome (by decide +kernel)) (Prod.ext rfl hsaved)
  -- The loaded graph is not run through the reader here: what it binds first follows from the data
  -- of its constant.
  have hstart : initialEnvironment loaded {} =
      .ok ⟨[("w", .array (.ofTensor twoColumns.tensor))]⟩ := by
    have hinputs : loaded.inputs = [] := hrestored.inputs
    have hconstants : loaded.constants = ["w"] := hrestored.constants
    unfold initialEnvironment
    rw [hinputs, hconstants, List.foldlM_nil, pure_bind, List.foldlM_cons]
    unfold Environment.bindConstant Graph.tensor
    rw [hrestored.tensors]
    rfl
  have hevaluate : evaluate Op.catalog loaded {} = evaluate Op.catalog rowTotal {} := by
    unfold evaluate
    rw [hstart, hrestored.nodes, hrestored.outputs]
    rfl
  have hsum : ((evaluate Op.catalog columnTotal {}).toOption.map fun outputs ↦
      (outputs.find? "y").bind Value.bits?) = some (some 0x40000000) := by
    decide +kernel
  have hagain : ((evaluate Op.catalog rowTotal {}).toOption.map fun outputs ↦
      (outputs.find? "y").bind Value.bits?) = some (some 0x3f800000) := by decide +kernel
  obtain ⟨outputs, houtputs, hsum⟩ := Option.map_eq_some_iff.mp hsum
  obtain ⟨again, hreloaded, hagain⟩ := Option.map_eq_some_iff.mp hagain
  exact ⟨hbuilt, hsaved, loaded, outputs, again, hloaded,
    Result.eq_ok_of_toOption_eq_some houtputs,
    hevaluate.trans (Result.eq_ok_of_toOption_eq_some hreloaded), hsum, hagain⟩

end Handover
