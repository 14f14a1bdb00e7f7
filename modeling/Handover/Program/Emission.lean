import Handover.Program.Body

/-!
# From a graph to a program body

A graph is walked twice against a fresh ledger. The first walk (`Graph.buildCalls`) registers every
producer and every future use in program order: inputs are produced at position 0, node `i` reads at
position `i` and produces at position `i + 1`, so that a node may bind a name it reads, and the
return reads at the position after the last node. The caller keeps its input tensors, which counts
as one more use of each at position 0. Constants belong to the module and never pass through the
ledger.

The second walk (`emitBody`) resolves each use in the same order and writes its reference: an owned
slot follows the decision, a borrowed slot names the value, and a constant in an owned slot is
always copied.
-/

set_option autoImplicit false
set_option relaxedAutoImplicit false

namespace Handover

/-- A computation on the ledger, which is kept when the computation fails. -/
abbrev Bookkeeping (α : Type) : Type := ExceptT Error (StateM Ledger) α

/-- Where in a graph a use stands: its node, or the return statement, and its position. -/
structure Site where
  node : Option Nat
  position : Int
deriving DecidableEq, Repr

namespace Bookkeeping

/-- The result of a call that does not touch the ledger. -/
def lift {α : Type} (result : Result α) : Bookkeeping α := fun ledger ↦ (result, ledger)

/-- The error of a refused call of a graph at a site: a fault stops the generation of the graph
there. -/
def refusalError (graphName : String) (site : Site) : Ledger.Refusal → Error
  | .fault cause =>
    .generation ⟨graphName, site.node.map Int.ofNat, site.position, cause⟩
  | refusal => .ledger refusal

/-- A call that changes the ledger, made for a graph at a site. -/
def call {α : Type} (graphName : String) (site : Site)
    (operation : Ledger → Except Ledger.Refusal (α × Ledger)) : Bookkeeping α := fun ledger ↦
  match operation ledger with
  | .ok (value, changed) => (.ok value, changed)
  | .error refusal => (.error (refusalError graphName site refusal), ledger)

/-- A call that changes the ledger and is made for no site. -/
def plainCall (operation : Ledger → Except Ledger.Refusal Ledger) : Bookkeeping Unit :=
  fun ledger ↦
    match operation ledger with
    | .ok changed => (.ok (), changed)
    | .error refusal => (.error (.ledger refusal), ledger)

end Bookkeeping

/-! ### The first walk -/

section Build

/-- One registration of the first walk. -/
inductive BuildCall
  | produce (name : String) (position : Int)
  | futureUse (site : Site) (name : String)
deriving DecidableEq, Repr

namespace Graph

variable (graph : Graph)

/-- Whether a name is that of a constant. -/
def isConstant (name : String) : Bool := graph.constants.contains name

/-- The site of the return statement. -/
def returnSite : Site := ⟨none, graph.nodes.length⟩

/-- The registrations of an input: it is produced, and its caller holds it. -/
def inputCalls (name : String) : List BuildCall :=
  [.produce name 0, .futureUse ⟨none, 0⟩ name]

/-- The registrations of a node at an index: it reads, and then it produces. -/
def nodeCalls (node : Node) (index : Nat) : List BuildCall :=
  (node.inputs.filter fun name ↦ !graph.isConstant name).map
      (BuildCall.futureUse ⟨some node.id, index⟩) ++
    node.outputs.map fun name ↦ .produce name ((index : Int) + 1)

/-- The registrations of the first walk, in order. -/
def buildCalls : List BuildCall :=
  graph.inputs.flatMap inputCalls ++
    graph.nodes.zipIdx.flatMap (fun entry ↦ graph.nodeCalls entry.1 entry.2) ++
    graph.outputs.map (BuildCall.futureUse graph.returnSite)

end Graph

/-- Makes one registration for a graph. -/
def BuildCall.perform (graphName : String) : BuildCall → Bookkeeping Unit
  | produce name position => Bookkeeping.plainCall fun ledger ↦ ledger.produce name position
  | futureUse site name =>
    Bookkeeping.call graphName site fun ledger ↦ do
      return ((), ← ledger.futureUse name site.position)

/-- Makes the registrations of the first walk and ends the building phase. -/
def buildLedger (graph : Graph) : Bookkeeping Unit := do
  graph.buildCalls.forM (BuildCall.perform graph.name)
  Bookkeeping.plainCall Ledger.beginEmit

end Build

/-! ### The second walk -/

section Emit

/-- Resolves a use of a graph at a site. -/
def resolveUse (graph : Graph) (site : Site) (name : String) : Bookkeeping Decision :=
  Bookkeeping.call graph.name site fun ledger ↦ ledger.resolve name site.position

/-- The text that a template gives, or the error that it cannot be filled. -/
def templateText (filled : Except Template.Flaw String) : Result String :=
  match filled with
  | .ok text => .ok text
  | .error flaw => fails (.template flaw)

/-- The reference to a constant, which is copied where it is owned. -/
def constantReference (style : ReferenceStyle) (name : String) (owned : Bool) :
    Result Reference := do
  let subject := "self." ++ sanitize name
  let text ← if owned then templateText (Template.fill style.duplicate subject) else pure subject
  return ⟨subject, owned, none, text⟩

/-- The reference to a local variable after a decision. -/
def variableReference (style : ReferenceStyle) (decision : Decision) (owned : Bool) :
    Result Reference := do
  let text ← if owned then templateText (decision.render style) else pure decision.name
  return ⟨decision.name, owned, some decision, text⟩

/-- Resolves one read of a graph at a site and writes its reference. -/
def emitReference (graph : Graph) (style : ReferenceStyle) (site : Site) (name : String)
    (owned : Bool) : Bookkeeping Reference :=
  if graph.isConstant name then Bookkeeping.lift (constantReference style name owned)
  else do
    let decision ← resolveUse graph site name
    Bookkeeping.lift (variableReference style decision owned)

/-- Resolves the reads of a node at an index and writes its statement. -/
def emitStatement (ops : List Op) (graph : Graph) (style : ReferenceStyle) (node : Node)
    (index : Nat) : Bookkeeping Statement := do
  let owned ← Bookkeeping.lift (ownsFirstInput ops graph node)
  let site : Site := ⟨some node.id, index⟩
  let references ← node.inputs.zipIdx.mapM fun entry ↦
    emitReference graph style site entry.1 (owned && entry.2 == 0)
  let expression ← Bookkeeping.lift
    (nodeExpression ops graph node (references.map Reference.text))
  return ⟨node, owned, references, expression⟩

/-- Resolves every use in program order and writes the body. At the end the hold of the caller on
each input is released. -/
def emitBody (ops : List Op) (graph : Graph) (style : ReferenceStyle) : Bookkeeping Body := do
  let statements ← graph.nodes.zipIdx.mapM fun entry ↦
    emitStatement ops graph style entry.1 entry.2
  let returned ← graph.outputs.mapM fun name ↦
    emitReference graph style graph.returnSite name true
  graph.inputs.forM fun name ↦ do
    let _ ← resolveUse graph ⟨none, 0⟩ name
  return ⟨statements, returned⟩

end Emit

end Handover
