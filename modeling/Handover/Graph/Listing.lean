import Handover.Attr.Literal
import Handover.Graph.Basic

/-!
# Graph listings

Two texts for readers of a graph: `Graph.summary` counts its parts and describes its inputs and
outputs, and `Graph.dump` adds one line for each node in order.
-/

set_option autoImplicit false
set_option relaxedAutoImplicit false

namespace Handover.Graph

variable (graph : Graph)

/-- A text with blanks before it up to a width. -/
def padLeft (width : Nat) (text : String) : String :=
  String.ofList (List.replicate (width - text.length) ' ' ++ text.toList)

/-- A text with blanks after it up to a width. -/
def padRight (width : Nat) (text : String) : String :=
  String.ofList (text.toList ++ List.replicate (width - text.length) ' ')

/-- How often each operator occurs, the most frequent first and otherwise by first occurrence. -/
def opCounts : List (Op × Nat) :=
  let ops := graph.nodes.map Node.op
  let counts := (Op.all.filter ops.contains).map fun op ↦ (op, ops.count op)
  let byFirst := counts.mergeSort fun a b ↦ decide (ops.idxOf a.1 ≤ ops.idxOf b.1)
  byFirst.mergeSort fun a b ↦ decide (b.2 ≤ a.2)

/-- A tensor with its shape and element type. -/
def describe (name : String) : Result String := do
  let info ← graph.tensor name
  let lengths ← info.shape.mapM Attr.display
  return name ++ " [" ++ "x".intercalate lengths ++ "] " ++ info.elementType

/-- The counts of the parts of a graph and a description of its inputs and outputs. -/
def summary : Result String := do
  let count (n : Nat) : String := integerText n
  let header :=
    "Graph '" ++ graph.name ++ "': " ++ count graph.nodes.length ++ " nodes, " ++
      count graph.tensors.size ++ " tensors (" ++ count graph.inputs.length ++ " inputs, " ++
      count graph.constants.length ++ " constants, " ++ count graph.outputs.length ++ " outputs)"
  let ops := ", ".intercalate (graph.opCounts.map fun entry ↦ entry.1.name ++ ": " ++ count entry.2)
  let inputs ← graph.inputs.mapM graph.describe
  let outputs ← graph.outputs.mapM graph.describe
  let inputLines :=
    if inputs.isEmpty then [] else ["  Inputs:  " ++ ", ".intercalate inputs]
  let outputLines :=
    if outputs.isEmpty then [] else ["  Outputs: " ++ ", ".intercalate outputs]
  return "\n".intercalate ([header, "  Ops:     " ++ ops] ++ inputLines ++ outputLines)

/-- The line of a node in the listing of a graph. -/
def nodeLine (index : Nat) (node : Node) : Result String := do
  let attrs ← node.attrs.entries.mapM fun entry ↦ do
    return entry.1 ++ "=" ++ (← entry.2.display)
  return "  [" ++ padLeft 3 (integerText index) ++ "] " ++ padRight 10 node.op.name ++ " " ++
    ", ".intercalate node.inputs ++ " -> " ++ ", ".intercalate node.outputs ++
    (if attrs.isEmpty then "" else "  " ++ ", ".intercalate attrs)

/-- The summary of a graph and one line for each node in order. -/
def dump : Result String := do
  let summary ← graph.summary
  let lines ← graph.nodes.zipIdx.mapM fun entry ↦ nodeLine entry.2 entry.1
  return "\n".intercalate ([summary, ""] ++ lines)

end Handover.Graph
