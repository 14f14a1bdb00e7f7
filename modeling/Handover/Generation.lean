import Handover.Graph.Listing
import Handover.Check.Names
import Handover.Check.Structure
import Handover.Check.Values
import Handover.Program.Emission
import Handover.Program.ModuleText

/-!
# Generation

Generating the module of a graph (`generate`): the options are checked, the checks of the graph run,
the ledger is built and drained while the body is written, the checks of the ledger run, and the
module is put into text. `generateAll` does this for several graphs with distinct names and sets a
graph aside when a ledger fault or a failed checkpoint stops it. What is printed, and the ledger
events when they are logged, are kept also when generation fails (`Trace`).
-/

set_option autoImplicit false
set_option relaxedAutoImplicit false

namespace Handover

/-- What generation works with: the operators that have a definition, and the registered checks. -/
structure Setup where
  ops : List Op
  checks : Checks

/-- The checks that are registered from the start, for given operators. -/
def standardChecks (ops : List Op) : Checks where
  onGraph :=
    [⟨"structure", Structure.findings ops⟩,
      ⟨"repeated_outputs", repeatedOutputs⟩,
      ⟨"sanitized_collisions", fun graph ↦ .ok (nameFindings graph)⟩,
      ⟨"dead_values", deadValues⟩]
  onLedger := [⟨"outstanding_uses", fun ledger ↦ .ok (outstandingUses ledger)⟩]

/-- The operators of the catalog and the checks that are registered from the start. -/
def standardSetup : Setup := ⟨Op.catalog, standardChecks Op.catalog⟩

/-! ### Options -/

section Options

/-- The options of a generation. -/
structure Options where
  style : ReferenceStyle := {}
  className : String := "Model"
  strictness : String := "normal"
  verbose : Bool := false
deriving DecidableEq, Repr

/-- Whether a text occurs in another. -/
def occursIn (part : List Char) : List Char → Bool
  | [] => part.isEmpty
  | text@(_ :: rest) => part.isPrefixOf text || occursIn part rest

/-- Refuses a template without the field of the name. -/
def requireNameField (label template : String) : Result Unit :=
  if occursIn "\x7bname\x7d".toList template.toList then .ok ()
  else complains (.templateWithoutName label template)

/-- The failing severity of a strictness: under `none` no check runs. -/
def failingSeverity (strictness : String) : Result (Option Severity) :=
  if strictness = "strict" then .ok (some .warning)
  else if strictness = "normal" then .ok (some .error)
  else if strictness = "none" then .ok none
  else complains (.unknownStrictness strictness)

/-- Checks the options, the templates first, and gives the failing severity. -/
def Options.validate (options : Options) : Result (Option Severity) := do
  requireNameField "duplicate" options.style.duplicate
  requireNameField "move" options.style.move
  if !Text.isUsableIdentifier options.className then
    complains (.invalidClassName options.className)
  failingSeverity options.strictness

end Options

/-! ### Generating one module -/

section Generate

/-- The module of a graph and how it came about. -/
structure Generated where
  graphName : String
  className : String
  source : String
  decisions : List Decision
  stats : Stats
  findings : List Finding
deriving DecidableEq, Repr

/-- What generation leaves behind whether it succeeds or not: the printed lines, and the ledger
events if they are logged. -/
structure Trace where
  printed : List String := []
  events : Option (List Ledger.Event) := none
deriving DecidableEq, Repr

/-- Everything that was printed. -/
def Trace.output (trace : Trace) : String :=
  String.join (trace.printed.map fun line ↦ line ++ "\n")

/-- A step of generation, whose trace is kept when the step fails. -/
abbrev Generating (α : Type) : Type := ExceptT Error (StateM Trace) α

namespace Generating

/-- The result of a step that leaves no trace. -/
def lift {α : Type} (result : Result α) : Generating α := fun trace ↦ (result, trace)

/-- Prints lines if the options ask for it. -/
def say (options : Options) (lines : List String) : Generating Unit := fun trace ↦
  (.ok (), if options.verbose then { trace with printed := trace.printed ++ lines } else trace)

/-- Runs a computation on a fresh ledger that continues the log, and gives the ledger at its end. -/
def withLedger {α : Type} (computation : Bookkeeping α) : Generating (α × Ledger) := fun trace ↦
  match computation (Ledger.fresh trace.events) with
  | (.ok value, ledger) => (.ok (value, ledger), { trace with events := ledger.log })
  | (.error err, ledger) => (.error err, { trace with events := ledger.log })

end Generating

/-- Builds the ledger of a graph and writes its body. -/
def writeBody (ops : List Op) (graph : Graph) (style : ReferenceStyle) : Bookkeeping Body := do
  buildLedger graph
  emitBody ops graph style

/-- The findings of a checkpoint, or none when no check runs. They are printed when nothing
failed. -/
def checkpointFindings (options : Options) (failOn : Option Severity)
    (run : Option Severity → Result (List Finding)) : Generating (List Finding) := do
  if failOn.isNone then
    return []
  let findings ← Generating.lift (run failOn)
  Generating.say options (findings.map Finding.text)
  return findings

/-- Generates the module of a graph. -/
def generate (setup : Setup) (options : Options) (graph : Graph) : Generating Generated := do
  let failOn ← Generating.lift options.validate
  if options.verbose then
    Generating.say options [← Generating.lift graph.summary, ""]
  let before ← checkpointFindings options failOn fun severity ↦
    setup.checks.runOnGraph .preCodegen graph severity (some graph.name)
  let (body, ledger) ← Generating.withLedger (writeBody setup.ops graph options.style)
  let after ← checkpointFindings options failOn fun severity ↦
    setup.checks.runOnLedger .postEmit ledger severity (some graph.name)
  let source ← Generating.lift (moduleText graph options.className body)
  Generating.say options [body.stats.text, ""]
  return ⟨graph.name, options.className, source, body.decisions, body.stats, before ++ after⟩

end Generate

/-! ### Generating several modules -/

section GenerateAll

/-- The modules of several graphs: the generated ones and the errors of the others, by graph
name. -/
structure Batch where
  generated : OrderedMap String Generated := {}
  failures : OrderedMap String Error := {}

/-- Whether an error stops one graph only. -/
def Error.isOfOneGraph : Error → Bool
  | generation _ => true
  | check _ => true
  | _ => false

/-- The batch with the module of one more graph, or with its error. -/
def Batch.add (setup : Setup) (options : Options) (batch : Batch) (graph : Graph) :
    Generating Batch := fun trace ↦
  match generate setup options graph trace with
  | (.ok generated, trace) =>
    (.ok { batch with generated := batch.generated.insert graph.name generated }, trace)
  | (.error err, trace) =>
    if err.isOfOneGraph then
      (.ok { batch with failures := batch.failures.insert graph.name err }, trace)
    else (.error err, trace)

/-- The names that occur more than once, in the order of first occurrence. -/
def repeatedNames (names : List String) : List String :=
  (OrderedMap.dedup names).filter fun name ↦ 1 < names.count name

/-- Generates the modules of several graphs. Two graphs of one name are refused before anything is
generated. -/
def generateAll (setup : Setup) (options : Options) (graphs : List Graph) : Generating Batch := do
  let repeated := repeatedNames (graphs.map Graph.name)
  if !repeated.isEmpty then
    Generating.lift (complains (.duplicateGraphs repeated))
  graphs.foldlM (Batch.add setup options) {}

end GenerateAll

end Handover
