import Handover.Program.Body

/-!
# The text of a module

A generated module is a class with one buffer for each constant and a method that runs the program
body (`moduleText`). The head of the file names the graph, and every line ends with a line feed.
-/

set_option autoImplicit false
set_option relaxedAutoImplicit false

namespace Handover

/-- One level of indentation. -/
def indentation : String := "    "

/-- The line that registers the buffer of a constant. -/
def bufferLine (graph : Graph) (name : String) : Result String := do
  let info ← graph.tensor name
  let shape ← (Attr.tuple info.shape).literal
  return indentation ++ indentation ++ "self.register_buffer(" ++ Text.quote (sanitize name) ++
    ", torch.empty(" ++ shape ++ ", dtype=torch." ++ info.elementType ++ "))"

/-- The identifiers of the parameters of the method. -/
def parameters (graph : Graph) : List String := "self" :: graph.inputs.map sanitize

/-- The identifiers of the buffers of the module. -/
def buffers (graph : Graph) : List String := graph.constants.map sanitize

/-- The lines before the buffers. -/
def headLines (graph : Graph) (className : String) : List String :=
  ["\"\"\"Generated forward pass for graph '" ++ graph.name ++ "'.\"\"\"",
    "",
    "import torch",
    "import torch.nn.functional as F",
    "",
    "",
    "class " ++ className ++ "(torch.nn.Module):",
    indentation ++ "def __init__(self):",
    indentation ++ indentation ++ "super().__init__()"]

/-- The lines of a module. -/
def moduleLines (graph : Graph) (className : String) (body : Body) : Result (List String) := do
  let bufferLines ← graph.constants.mapM (bufferLine graph)
  let signature := indentation ++ "def forward(" ++ ", ".intercalate (parameters graph) ++ "):"
  return headLines graph className ++ bufferLines ++ ["", signature] ++
    body.lines.map fun line ↦ indentation ++ indentation ++ line

/-- The text of a module. -/
def moduleText (graph : Graph) (className : String) (body : Body) : Result String := do
  return "\n".intercalate (← moduleLines graph className body) ++ "\n"

end Handover
