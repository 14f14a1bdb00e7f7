import Handover.Program.ModuleText

/-!
# Buffers of a module

The buffers that an instance of a generated module holds, by identifier and in the order of the
constants: reserved but not filled (`reservedBuffers`), or filled with the data of the graph
(`filledBuffers`), which every constant must then have. Constants that share an identifier share the
buffer, which stands at the place of the first and is that of the last.
-/

set_option autoImplicit false
set_option relaxedAutoImplicit false

namespace Handover

/-- What is known of the buffers of a module before they are filled. -/
def reservedBuffers (graph : Graph) : Result (OrderedMap String TensorInfo) := do
  return OrderedMap.ofList (← graph.constants.mapM fun name ↦ do
    return (sanitize name, ← graph.tensor name))

/-- The buffers of a module filled with the data of its graph, row by row. -/
def filledBuffers (graph : Graph) : Result (OrderedMap String Tensor) := do
  return OrderedMap.ofList (← graph.constants.mapM fun name ↦ do
    match (← graph.tensor name).buffer with
    | some data => return (sanitize name, data.tensor)
    | none => complains (.noData name))

end Handover
