import Handover.Proofs.Graph.Building

/-!
# Building calls

A building call as data (`Graph.Addition`), so that a graph can be given by the calls that make it
(`Graph.make`). What calls make is built (`Graph.built_make`).
-/

set_option autoImplicit false
set_option relaxedAutoImplicit false

namespace Handover

namespace Graph

/-- A building call. -/
inductive Addition
  | tensor (name : String) (shape : List Attr) (elementType : String)
  | input (name : String) (shape : List Attr) (elementType : String)
  | constant (name : String) (data : Strided)
  | node (op : Op) (inputs outputs : List String) (attrs : Attrs)

/-- The graph that a building call makes. -/
def Addition.apply (graph : Graph) : Addition → Result Graph
  | tensor name shape elementType => graph.addTensor name shape elementType
  | input name shape elementType => graph.addInput name shape elementType
  | constant name data => graph.addConstant name data
  | node op inputs outputs attrs => graph.addNode op inputs outputs attrs

theorem Addition.built_apply {graph : Graph} (hbuilt : Built graph) (addition : Addition) :
    (addition.apply graph).Ensures Built := by
  intro next hnext
  cases addition with
  | tensor => exact .addTensor hbuilt hnext
  | input => exact .addInput hbuilt hnext
  | constant => exact .addConstant hbuilt hnext
  | node => exact .addNode hbuilt hnext

/-- The graph that building calls make one after the other, none of which may be refused, with some
names as its outputs. -/
def make (name : String) (additions : List Addition) (outputs : List String) : Result Graph := do
  return { ← additions.foldlM Addition.apply { name } with outputs }

theorem built_make (name : String) (additions : List Addition) (outputs : List String) :
    (make name additions outputs).Ensures Built :=
  .bind fun made hmade ↦ Result.ensures_pure (.assignRoles
    (Result.Ensures.foldlM (.empty name) (fun _ addition hbuilt ↦ addition.built_apply hbuilt)
      made hmade) _ _ _)

end Graph

end Handover
