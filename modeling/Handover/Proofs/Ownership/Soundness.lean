import Handover.Proofs.Generation.Faultless
import Handover.Proofs.Graph.Calls
import Handover.Proofs.Ownership.Simulation

/-!
# Ownership is sound

The program of a graph that passes its checks never reads what it handed over, never hands over what
the caller or the module keeps, and returns what the pure evaluation of the graph returns, for every
meaning of the operators (`ownership_sound`). Before the first statement the machine holds the
arguments and the constants (`simulates_loaded`), and from there the statements keep it in step with
the pure evaluation. When operators mean what they evaluate to, the program returns what the
evaluation of the graph on tensors returns (`run_of_evaluate`).
-/

set_option autoImplicit false
set_option relaxedAutoImplicit false

namespace Handover

universe u

variable {V : Type u}

/-! ### The loaded machine -/

section Loaded

/-- Holding the values of some entries binds each of them. Assumes: entries of one identifier have
one value. -/
theorem holds_foldl_hold (entries : List (String × V)) {machine : Machine V}
    (hseparate : machine.Separate)
    (hagree : ∀ entry ∈ entries, ∀ other ∈ entries, entry.1 = other.1 → entry.2 = other.2) :
    (entries.foldl Machine.hold machine).Separate ∧
    ∀ ident value, (ident, value) ∈ entries ∨
        (machine.Holds ident value true ∧ ∀ entry ∈ entries, entry.1 = ident → entry.2 = value) →
      (entries.foldl Machine.hold machine).Holds ident value true := by
  induction entries generalizing machine with
  | nil => exact ⟨hseparate, fun _ _ h ↦ (h.resolve_left List.not_mem_nil).1⟩
  | cons head rest ih =>
    have hpreserves : machine.Preserves (fun _ ↦ True) (machine.allocate head.2).2 :=
      hseparate.allocate head.2
    have hheld : (machine.hold head).Separate :=
      hpreserves.separate.bind (hseparate.free_allocate head.2) head.1 true
    have hhead : (machine.hold head).Holds head.1 head.2 true :=
      Machine.holds_bind_self (Function.update_self ..) head.1 true
    obtain ⟨hfinal, hholds⟩ := ih hheld fun entry hentry other hother ↦
      hagree entry (List.mem_cons_of_mem _ hentry) other (List.mem_cons_of_mem _ hother)
    refine ⟨hfinal, fun ident value hvalue ↦ hholds ident value ?_⟩
    rcases hvalue with hmem | ⟨hbefore, hsame⟩
    · rcases List.mem_cons.mp hmem with heq | hrest
      · subst heq
        refine .inr ⟨hhead, fun entry hentry hident ↦ ?_⟩
        exact hagree entry (List.mem_cons_of_mem _ hentry) (ident, value) hmem hident
      · exact .inl hrest
    · refine .inr ⟨?_, fun entry hentry ↦ hsame entry (List.mem_cons_of_mem _ hentry)⟩
      by_cases hident : head.1 = ident
      · have hvalue := hsame head (List.mem_cons_self ..) hident
        rwa [hident, hvalue] at hhead
      · exact (hpreserves.holds ident trivial value true hbefore).bind (Ne.symm hident) _ true

theorem separate_empty : ({} : Machine V).Separate := by
  have hnone : ∀ name region, ¬ ({} : Machine V).Live name region := by
    rintro name region ⟨foreign, hfind⟩
    cases hfind
  exact ⟨fun name region hlive ↦ absurd hlive (hnone name region),
    fun first _ one _ _ hone ↦ absurd hone (hnone first one)⟩

variable {graph : Graph} {later : List Use}

/-- Parameters and buffers of one identifier are loaded with one value. -/
theorem loadedEntries_agree (haccepted : graph.Accepted) (arguments constants : String → V) :
    let entries := graph.inputs.map (fun name ↦ (sanitize name, arguments name)) ++
      graph.constants.map fun name ↦ ("self." ++ sanitize name, constants name)
    ∀ entry ∈ entries, ∀ other ∈ entries, entry.1 = other.1 → entry.2 = other.2 := by
  intro entries entry hentry other hother hident
  rcases List.mem_append.mp hentry with hentry | hentry <;>
    obtain ⟨name, hname, rfl⟩ := List.mem_map.mp hentry <;>
    rcases List.mem_append.mp hother with hother | hother <;>
    obtain ⟨second, hsecond, rfl⟩ := List.mem_map.mp hother
  · exact congrArg arguments (haccepted.forms name second (haccepted.roles name (.inl hname))
      (haccepted.roles second (.inl hsecond)) hident)
  · exact absurd hident (sanitize_ne_buffer name second)
  · exact absurd hident.symm (sanitize_ne_buffer second name)
  · have hforms : sanitize name = sanitize second := (String.append_right_inj "self.").mp hident
    exact congrArg constants (haccepted.forms name second (haccepted.roles name (.inr (.inl hname)))
      (haccepted.roles second (.inr (.inl hsecond))) hforms)

/-- The loaded machine is in step with the pure evaluation. Assumes: uses that resolve to a
generation of the graph. -/
theorem simulates_loaded (haccepted : graph.Accepted) (arguments constants : String → V)
    (hresolved : ∀ use ∈ later, ∃ place, graph.origin use = some place) :
    Simulates graph arguments constants 0 later (graph.valuation arguments constants)
      (graph.loaded arguments constants) := by
  obtain ⟨hseparate, hholds⟩ := holds_foldl_hold _ separate_empty
    (loadedEntries_agree haccepted arguments constants)
  refine ⟨hseparate, hresolved, fun name hname ↦ hholds _ _ (.inl ?_),
    fun name hname ↦ hholds _ _ (.inl ?_), ?_, ?_, ?_⟩
  · exact List.mem_append_left _ (List.mem_map.mpr ⟨name, hname, rfl⟩)
  · exact List.mem_append_right _ (List.mem_map.mpr ⟨name, hname, rfl⟩)
  · intro name hname hconstant
    simp [Graph.valuation, hconstant, hname]
  · intro name hname
    simp [Graph.valuation, Graph.isConstant, hname]
  · -- Before the first node only inputs have a generation.
    rintro name hname _ hinput ⟨use, huse, _, horigin⟩
    obtain ⟨place, hplace⟩ := hresolved use huse
    obtain ⟨⟨hproduced, hbefore⟩, _⟩ := Graph.origin_eq_some_iff.mp (horigin.symm.trans hplace)
    have hzero : place = 0 := by
      have hpositive := Graph.eq_zero_or_pos_of_mem_producedAt hproduced
      dsimp only at hbefore
      omega
    exact absurd (haccepted.mem_inputs hname (hzero ▸ hproduced)) hinput

end Loaded

/-! ### Runs -/

section Runs

variable {graph : Graph} {ops : List Op} {style : ReferenceStyle} {body : Body}

/-- The body of an accepted graph returns what the graph returns. -/
theorem run_of_writtenBody (haccepted : graph.Accepted) (hresolved : graph.firstUnresolved? = none)
    (hwritten : WrittenBody ops graph style graph.returnedConstants body)
    (meaning : Interpretation V) (arguments constants : String → V) :
    ∃ values final, graph.denote meaning arguments constants = some values ∧
      body.run meaning (graph.loaded arguments constants) = .ok (values, final) ∧
      (∀ name ∈ graph.inputs, final.Holds (sanitize name) (arguments name) true) ∧
      ∀ name ∈ graph.constants, final.Holds ("self." ++ sanitize name) (constants name) true := by
  refine (simulates_loaded haccepted arguments constants fun use huse ↦ ?_).run haccepted meaning
    hwritten
  exact exists_origin_of_resolved hresolved ((usesOf_buildCalls_perm graph).mem_iff.mpr huse)

/-- When operators mean what they evaluate to, the body of an accepted graph returns what the graph
evaluates to. Assumes: the results of nodes have a part for each output. -/
theorem run_of_evaluate (haccepted : graph.Accepted) (hresolved : graph.firstUnresolved? = none)
    (hwritten : WrittenBody ops graph style graph.returnedConstants body)
    (hunpacks : ∀ node ∈ graph.nodes, node.Unpacks) {inputs : OrderedMap String Strided}
    {environment : Environment} (hevaluate : evaluate ops graph inputs = .ok environment) :
    ∃ values final, body.run Interpretation.evaluated
        (graph.loaded (argumentOf inputs) graph.constantOf) = .ok (values, final) ∧
      environment = OrderedMap.ofList (graph.outputs.zip values) := by
  obtain ⟨values, hvalues, henvironment⟩ := denote_of_evaluate hunpacks hevaluate
  obtain ⟨returned, final, hreturned, hrun, _⟩ := run_of_writtenBody haccepted hresolved hwritten
    Interpretation.evaluated (argumentOf inputs) graph.constantOf
  rw [hvalues] at hreturned
  obtain rfl := Option.some.inj hreturned
  exact ⟨values, final, hrun, henvironment⟩

end Runs

/-! ### Generated modules -/

section Generated

/-- The program of a graph that was built and passed its checks runs without a violation, whatever
the operators mean: it returns what the pure evaluation of the graph returns, and at its end the
caller and the module still hold what they passed in. -/
theorem ownership_sound {setup : Setup} {options : Options} {graph : Graph} {trace : Trace}
    {generated : Generated} (hbuilt : graph.Built)
    (hchecks : (standardChecks setup.ops).onGraph ⊆ setup.checks.onGraph)
    (hstrictness : options.strictness = "normal" ∨ options.strictness = "strict")
    (hgenerated : (generate setup options graph trace).1 = .ok generated) :
    ∃ body ledger,
      writeBody setup.ops graph options.style (.fresh trace.events) = (.ok body, ledger) ∧
      moduleText graph options.className body = .ok generated.source ∧
      ∀ (V : Type u) (meaning : Interpretation V) (arguments constants : String → V),
        ∃ values final, graph.denote meaning arguments constants = some values ∧
          body.run meaning (graph.loaded arguments constants) = .ok (values, final) ∧
          (∀ name ∈ graph.inputs, final.Holds (sanitize name) (arguments name) true) ∧
          ∀ name ∈ graph.constants,
            final.Holds ("self." ++ sanitize name) (constants name) true := by
  obtain ⟨failOn, body, hvalidate, hmodule⟩ := generate_eq_ok (Prod.ext hgenerated rfl)
  obtain ⟨severity, rfl⟩ := exists_severity_of_validate hvalidate hstrictness
  obtain ⟨findings, hpassed⟩ := hmodule.checked severity rfl
  obtain ⟨ledger, hwritten⟩ := hmodule.written
  obtain ⟨hresolved, _, hbody⟩ := writeBody_eq_ok _ _ _ hwritten
  have haccepted : graph.Accepted := accepted_of_runOnGraph hbuilt hchecks hpassed
  refine ⟨body, ledger, hwritten, hmodule.source, fun V meaning arguments constants ↦ ?_⟩
  exact run_of_writtenBody haccepted hresolved hbody meaning arguments constants

/-- A meaning of the operators that tells them, their operands and their outputs apart. -/
def Interpretation.tally : Interpretation Nat := fun op _ operands _ index ↦
  operands.foldl (· + ·) (op.code + index)

/-- A graph that reads an input twice in one node, binds a name again, owns a constant, works in
place on a part of a view, and returns an input and one value twice. -/
def handedOn : Graph :=
  (Graph.make "handedOn"
    [.input "x:0" [.int 2] "float32", .constant "w" (Tensor.tabulate .float32 [2] fun _ ↦ 0),
      .tensor "h" [.int 2] "float32", .tensor "y" [.int 2] "float32",
      .tensor "a" [.int 1] "float32", .tensor "b" [.int 1] "float32",
      .node .add ["x:0", "x:0"] ["h"] {},
      .node .relu ["h"] ["h"] {}, .node .add ["w", "h"] ["y"] {},
      .node .split ["h"] ["a", "b"] ⟨[("sizes", .list [.int 1, .int 1]), ("dim", .int 0)]⟩,
      .node .relu ["a"] ["a"] {}, .node .add ["b", "a"] ["b"] {}]
    ["y", "x:0", "y", "b"]).toOption.get rfl

theorem built_handedOn : handedOn.Built := (Graph.built_make _ _ _).get rfl

/-- The program of the graph returns what the graph returns, and the caller still holds the input.
-/
theorem ownership_sound_handedOn :
    ∃ generated, (generate standardSetup {} handedOn {}).1 = .ok generated ∧
      ∃ body ledger, writeBody standardSetup.ops handedOn {} (.fresh none) = (.ok body, ledger) ∧
        ∃ final, body.run .tally (handedOn.loaded (fun _ ↦ 7) fun _ ↦ 1) =
            .ok ([65, 7, 65, 225], final) ∧
          final.Holds "x_0" 7 true ∧ final.Holds "self.w" 1 true := by
  have hvalidate : Options.validate {} = .ok (some .error) :=
    Result.eq_ok_of_toOption_eq_some (by decide +kernel)
  have hchecks : ((standardChecks Op.catalog).runOnGraph .preCodegen handedOn (some .error)
      (some handedOn.name)).toOption.isSome = true := by decide +kernel
  have htext : ((writeBody Op.catalog handedOn {} (.fresh none)).1 >>=
      moduleText handedOn "Model").toOption.isSome = true := by decide +kernel
  have hdenote : handedOn.denote .tally (fun _ ↦ 7) (fun _ ↦ 1) = some [65, 7, 65, 225] := by
    decide +kernel
  obtain ⟨findings, hfindings⟩ := Result.returns_of_isSome hchecks
  obtain ⟨source, hsource⟩ := Result.returns_of_isSome htext
  obtain ⟨body, hbody, hsource⟩ := Result.bind_eq_ok_iff.mp hsource
  obtain ⟨drained, hdrained⟩ := Stateful.exists_state_of_fst hbody
  obtain ⟨generated, hgenerated⟩ : ∃ generated, (generate standardSetup {} handedOn {}).1 =
      .ok generated :=
    exists_generated_of_checks hvalidate rfl hfindings hdrained hsource
  obtain ⟨written, ledger, hwritten, _, hsound⟩ := ownership_sound built_handedOn
    (List.Subset.refl _) (.inl rfl) hgenerated
  obtain ⟨values, final, hvalues, hrun, hinputs, hconstants⟩ :=
    hsound Nat .tally (fun _ ↦ 7) fun _ ↦ 1
  rw [hdenote] at hvalues
  obtain rfl := Option.some.inj hvalues
  have hinput := hinputs "x:0" (by decide +kernel)
  have hconstant := hconstants "w" (by decide +kernel)
  rw [show sanitize "x:0" = "x_0" by decide +kernel] at hinput
  rw [show "self." ++ sanitize "w" = "self.w" by decide +kernel] at hconstant
  exact ⟨generated, hgenerated, written, ledger, hwritten, final, hrun, hinput, hconstant⟩

end Generated

end Handover
