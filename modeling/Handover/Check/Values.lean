import Handover.Check.Registry

/-!
# Checks of produced values

Two checks of the values that nodes produce and one of the drained ledger: an output that a node
lists more than once (`repeatedOutputs`), a value that nothing reads and the graph does not return
(`deadValues`), and a registered use that was never resolved (`outstandingUses`).
-/

set_option autoImplicit false
set_option relaxedAutoImplicit false

namespace Handover

/-- A finding about a node at its place. -/
def placedFinding (graph : Graph) (check : String) (severity : Severity) (node : Node)
    (message : String) : Result Finding := do
  return ⟨check, severity, message, some node.id, some (← graph.indexOf node.id)⟩

/-- The items that stand after an equal one, in order. -/
def repetitions : List String → List String → List String
  | _, [] => []
  | seen, name :: rest =>
    if seen.contains name then name :: repetitions seen rest else repetitions (name :: seen) rest

/-- The outputs that nodes list more than once. The earlier slots of such an output are
unreachable. -/
def repeatedOutputs (graph : Graph) : Result (List Finding) := do
  let found ← graph.nodes.mapM fun node ↦
    (repetitions [] node.outputs).mapM fun name ↦
      placedFinding graph "repeated_outputs" .warning node
        (node.op.name ++ " produces '" ++ name ++ "' more than once")
  return found.flatten

/-- The outputs of a node that no node reads and the graph does not return. -/
def deadOutputs (graph : Graph) (node : Node) : List String :=
  let consumed := graph.nodes.flatMap Node.inputs
  (OrderedMap.dedup node.outputs).filter fun name ↦
    !consumed.contains name && !graph.outputs.contains name

/-- The produced values that no node reads and the graph does not return. -/
def deadValues (graph : Graph) : Result (List Finding) := do
  let found ← graph.nodes.mapM fun node ↦
    (deadOutputs graph node).mapM fun name ↦
      placedFinding graph "dead_values" .info node
        (node.op.name ++ " output '" ++ name ++ "' is never used")
  return found.flatten

/-- The generations of a ledger with uses that were registered and never resolved. -/
def outstandingUses (ledger : Ledger) : List Finding :=
  ledger.outstanding.map fun entry ↦
    ⟨"outstanding_uses", .error,
      "'" ++ entry.1 ++ "' produced at position " ++ integerText entry.2.position ++
        " still has " ++ integerText entry.2.pending ++
        " registered use(s) that were never emitted",
      none, some entry.2.position⟩

end Handover
