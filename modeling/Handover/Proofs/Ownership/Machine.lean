import Handover.Program.Body
import Handover.Proofs.Computation
import Mathlib.Data.List.Infix
import Mathlib.Logic.Function.Basic

/-!
# The ownership machine

A machine on which program bodies run (`Body.run`), for any meaning of the operators
(`Interpretation`). Storage consists of regions, and a view divides a region into parts of it
(`Region`). An identifier is bound to a region, and a binding whose storage was handed over is
consumed (`Binding`). A borrowed slot reads its binding, a copied one works on a new region, and a
handed over one takes the region and consumes the binding (`Machine.fetch`). A statement that owns
its first input overwrites the region that it is given, or divides it when its expression is a view;
every other statement puts its results into new regions (`Machine.settle`). What a schedule must
not do is a violation: to read a consumed binding, to read storage that was overwritten through
another binding, and to hand over what the caller or the module keeps (`Violation`).
-/

set_option autoImplicit false
set_option relaxedAutoImplicit false

namespace Handover

/-! ### Regions -/

/-- A region of storage: an allocation, and the parts of views that lead from the whole allocation
to the region. -/
structure Region where
  root : Nat
  parts : List Nat := []
deriving DecidableEq, Repr

namespace Region

/-- A part of a region. -/
def part (region : Region) (index : Nat) : Region :=
  { region with parts := region.parts ++ [index] }

/-- Whether one of two regions is a part of the other. -/
def Overlaps (first second : Region) : Prop :=
  first.root = second.root ∧ (first.parts <+: second.parts ∨ second.parts <+: first.parts)

instance (first second : Region) : Decidable (Overlaps first second) :=
  inferInstanceAs (Decidable (_ ∧ _))

variable {first second region : Region}

theorem Overlaps.symm (hoverlaps : Overlaps first second) : Overlaps second first :=
  ⟨hoverlaps.1.symm, hoverlaps.2.symm⟩

theorem overlaps_self (region : Region) : Overlaps region region :=
  ⟨rfl, .inl (List.prefix_refl _)⟩

/-- What overlaps a part of a region overlaps the region. -/
theorem Overlaps.of_part {index : Nat} (hoverlaps : Overlaps first (region.part index)) :
    Overlaps first region := by
  obtain ⟨hroot, hpath | hpath⟩ := hoverlaps
  · refine ⟨hroot, ?_⟩
    rcases List.prefix_concat_iff.mp hpath with heq | hprefix
    · exact .inr ⟨[index], heq.symm⟩
    · exact .inl hprefix
  · exact ⟨hroot, .inr ((List.prefix_append _ _).trans hpath)⟩

/-- Two parts of a region with different indices do not overlap. -/
theorem not_overlaps_part {one other : Nat} (hne : one ≠ other) :
    ¬ Overlaps (region.part one) (region.part other) := by
  rintro ⟨_, hpath | hpath⟩
  · simp only [part, List.prefix_append_right_inj, List.cons_prefix_cons] at hpath
    exact hne hpath.1
  · simp only [part, List.prefix_append_right_inj, List.cons_prefix_cons] at hpath
    exact hne hpath.1.symm

end Region

/-! ### The machine -/

universe u

variable {V : Type u}

/-- What the operators mean: the values of the outputs of a node, of which there are a given number,
from its attributes and the values of its operands. -/
abbrev Interpretation (V : Type u) : Type u :=
  Op → Attrs → List V → (count : Nat) → Fin count → V

/-- What an identifier is bound to. A foreign binding is one that the caller or the module keeps. -/
structure Binding where
  region : Region
  consumed : Bool := false
  foreign : Bool := false
deriving DecidableEq, Repr

/-- What a schedule must not do. -/
inductive Violation
  /-- Reading an identifier that is not bound. -/
  | unbound (name : String)
  /-- Reading a binding whose storage was handed over. -/
  | consumed (name : String)
  /-- Reading storage that was overwritten through another binding. -/
  | overwritten (name : String)
  /-- Handing over what the caller or the module keeps. -/
  | foreign (name : String)
deriving DecidableEq, Repr

/-- The state of the machine: the bindings of identifiers, the contents of regions, and the number
of allocations. -/
structure Machine (V : Type u) where
  bindings : OrderedMap String Binding := {}
  contents : Region → Option V := fun _ ↦ none
  roots : Nat := 0

namespace Machine

/-- A new region with a value, and the machine with it. -/
def allocate (value : V) (machine : Machine V) : Region × Machine V :=
  (⟨machine.roots, []⟩, { machine with
    contents := Function.update machine.contents ⟨machine.roots, []⟩ (some value)
    roots := machine.roots + 1 })

/-- The machine with an identifier bound to a region. -/
def bind (name : String) (region : Region) (foreign : Bool) (machine : Machine V) : Machine V :=
  { machine with bindings := machine.bindings.insert name ⟨region, false, foreign⟩ }

/-- The machine with the binding of an identifier consumed. -/
def consume (name : String) (binding : Binding) (machine : Machine V) : Machine V :=
  { machine with bindings := machine.bindings.insert name { binding with consumed := true } }

/-- The machine with a value written over a region. The values of other regions that overlap it are
lost. -/
def overwrite (region : Region) (value : V) (machine : Machine V) : Machine V :=
  { machine with
    contents := Function.update
      (fun other ↦ if other.Overlaps region then none else machine.contents other)
      region (some value) }

/-- The operand that a slot works on: its region and its value. -/
def fetch (reference : Reference) (machine : Machine V) :
    Except Violation ((Region × V) × Machine V) :=
  match machine.bindings.find? reference.subject with
  | none => .error (.unbound reference.subject)
  | some binding =>
    if binding.consumed then .error (.consumed reference.subject)
    else match machine.contents binding.region with
      | none => .error (.overwritten reference.subject)
      | some value =>
        if reference.isClone then
          let (region, extended) := machine.allocate value
          .ok ((region, value), extended)
        else if !reference.owned then .ok ((binding.region, value), machine)
        else if binding.foreign then .error (.foreign reference.subject)
        else .ok ((binding.region, value), machine.consume reference.subject binding)

/-- The operands that slots work on, fetched in order. -/
def fetchAll : List Reference → Machine V → Except Violation (List (Region × V) × Machine V)
  | [], machine => .ok ([], machine)
  | reference :: rest, machine => do
    let (operand, fetched) ← machine.fetch reference
    let (operands, final) ← fetchAll rest fetched
    return (operand :: operands, final)

/-- The machine with values put into regions. -/
def fill (entries : List (Region × V)) (machine : Machine V) : Machine V :=
  { machine with
    contents := entries.foldl
      (fun contents entry ↦ Function.update contents entry.1 (some entry.2)) machine.contents }

/-- The regions that the results of a statement are put into, and the machine with them: the parts
of the owned operand for a view, the owned operand itself for an in-place form, and new storage for
everything else. -/
def settle (statement : Statement) (operands : List (Region × V)) (results : List V)
    (machine : Machine V) : List Region × Machine V :=
  match statement.owned, operands with
  | true, (region, _) :: _ =>
    if statement.node.op.isView then
      let parts := (List.range results.length).map region.part
      (parts, machine.fill (parts.zip results))
    else (results.map fun _ ↦ region,
      results.foldl (fun machine result ↦ machine.overwrite region result) machine)
  | _, _ =>
    let regions := (List.range results.length).map fun index ↦ ⟨machine.roots + index, []⟩
    (regions, { machine with roots := machine.roots + results.length }.fill (regions.zip results))

/-- The machine after a statement: the slots are fetched in order, and the targets are bound to the
results. -/
def execute (meaning : Interpretation V) (machine : Machine V) (statement : Statement) :
    Except Violation (Machine V) := do
  let (operands, fetched) ← machine.fetchAll statement.references
  let node := statement.node
  let results := List.ofFn (meaning node.op node.attrs (operands.map Prod.snd) node.outputs.length)
  let (regions, settled) := fetched.settle statement operands results
  return (statement.targets.zip regions).foldl
    (fun machine entry ↦ machine.bind entry.1 entry.2 false) settled

/-- The machine with a value that the caller or the module keeps. -/
def hold (machine : Machine V) (entry : String × V) : Machine V :=
  let (region, extended) := machine.allocate entry.2
  extended.bind entry.1 region true

end Machine

/-- The values that a body returns, and the machine at its end. -/
def Body.run (meaning : Interpretation V) (body : Body) (machine : Machine V) :
    Except Violation (List V × Machine V) := do
  let reached ← body.statements.foldlM (Machine.execute meaning) machine
  let (returned, final) ← reached.fetchAll body.returned
  return (returned.map Prod.snd, final)

/-- The machine before the first statement of a graph: the parameters hold the arguments and the
buffers of the module hold the constants. -/
def Graph.loaded (graph : Graph) (arguments constants : String → V) : Machine V :=
  (graph.inputs.map (fun name ↦ (sanitize name, arguments name)) ++
    graph.constants.map fun name ↦ ("self." ++ sanitize name, constants name)).foldl
      Machine.hold {}

end Handover
