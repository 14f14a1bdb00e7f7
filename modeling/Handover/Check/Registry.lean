import Handover.Graph.Basic
import Handover.Graph.Record
import Handover.Ledger.Basic

/-!
# Registered checks

The checks of the two checkpoints, in the order in which they run (`Checks`). Running a checkpoint
collects the findings of all its checks, and fails with all of them when one reaches the failing
severity (`gate`).
-/

set_option autoImplicit false
set_option relaxedAutoImplicit false

namespace Handover

/-- What a checkpoint checks. -/
def Checkpoint.Target : Checkpoint → Type
  | .preCodegen => Graph
  | .postEmit => Ledger

/-- A named check of a target. -/
structure Check (α : Type) where
  name : String
  run : α → Result (List Finding)

/-- The registered checks of each checkpoint, in the order in which they run. -/
structure Checks where
  onGraph : List (Check Graph) := []
  onLedger : List (Check Ledger) := []

namespace Checks

/-- The names of the checks of a checkpoint, in the order in which they run. -/
def names (checks : Checks) : Checkpoint → List String
  | .preCodegen => checks.onGraph.map Check.name
  | .postEmit => checks.onLedger.map Check.name

/-- The checks with one more at a checkpoint, which runs last. Names are unique in a checkpoint. -/
def register (checks : Checks) (name : String) (checkpoint : Checkpoint)
    (run : checkpoint.Target → Result (List Finding)) : Result Checks :=
  if (checks.names checkpoint).contains name then complains (.duplicateCheck name checkpoint)
  else
    match checkpoint, run with
    | .preCodegen, run => .ok { checks with onGraph := checks.onGraph ++ [⟨name, run⟩] }
    | .postEmit, run => .ok { checks with onLedger := checks.onLedger ++ [⟨name, run⟩] }

/-- The findings of all checks of a target, in order. -/
def collect {α : Type} (checks : List (Check α)) (target : α) : Result (List Finding) := do
  return (← checks.mapM fun check ↦ check.run target).flatten

/-- The findings of a checkpoint, which fails when one of them reaches the failing severity. -/
def gate (checkpoint : Checkpoint) (failOn : Option Severity) (graphName : Option String)
    (findings : List Finding) : Result (List Finding) :=
  match failOn with
  | none => .ok findings
  | some severity =>
    if anyReaches findings severity then
      .error (.check ⟨checkpoint, findings, severity, graphName⟩)
    else .ok findings

/-- Runs the checks of a checkpoint on a graph. A failure names the graph unless it is given another
name. -/
def runOnGraph (checks : Checks) (checkpoint : Checkpoint) (graph : Graph)
    (failOn : Option Severity) (graphName : Option String) : Result (List Finding) := do
  if checkpoint ≠ .preCodegen then
    complains (.wrongTarget checkpoint "Graph")
  gate checkpoint failOn (some (graphName.getD graph.name)) (← collect checks.onGraph graph)

/-- Runs the checks of a checkpoint on a ledger. -/
def runOnLedger (checks : Checks) (checkpoint : Checkpoint) (ledger : Ledger)
    (failOn : Option Severity) (graphName : Option String) : Result (List Finding) := do
  if checkpoint ≠ .postEmit then
    complains (.wrongTarget checkpoint "Scope")
  gate checkpoint failOn graphName (← collect checks.onLedger ledger)

end Checks

end Handover
