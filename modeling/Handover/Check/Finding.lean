import Handover.Ledger.Fault

/-!
# Findings of the checks

Checks run at two points of generation (`Checkpoint`) and report findings, each with a severity and,
where it has one, the node and the position it is about (`Finding`). When a finding is at least as
serious as the failing severity, the whole checkpoint fails and carries every finding
(`CheckFailure`), but its wording lists only the fatal ones.
-/

set_option autoImplicit false
set_option relaxedAutoImplicit false

namespace Handover

/-- A point of generation at which checks run. -/
inductive Checkpoint
  /-- Before the ledger is built: checks receive the graph. -/
  | preCodegen
  /-- After every use has been resolved: checks receive the ledger. -/
  | postEmit
deriving DecidableEq, Repr, Inhabited

namespace Checkpoint

/-- Every checkpoint, in the order of generation. -/
def all : List Checkpoint := [preCodegen, postEmit]

/-- The name of a checkpoint. -/
def name : Checkpoint → String
  | preCodegen => "PRE_CODEGEN"
  | postEmit => "POST_EMIT"

/-- The name of a checkpoint in running text. -/
def label : Checkpoint → String
  | preCodegen => "pre-codegen"
  | postEmit => "post-emit"

/-- What the checks of a checkpoint receive. -/
def targetName : Checkpoint → String
  | preCodegen => "Graph"
  | postEmit => "Scope"

end Checkpoint

/-- How serious a finding is. -/
inductive Severity
  /-- The generated code would be wrong, or generation would fail. -/
  | error
  /-- The code is generated, but something in it is suspicious. -/
  | warning
  /-- For information. -/
  | info
deriving DecidableEq, Repr, Inhabited

namespace Severity

/-- Every severity, the most serious first. -/
def all : List Severity := [error, warning, info]

/-- The place of a severity in the order from the most serious down. -/
def rank : Severity → Nat
  | error => 0
  | warning => 1
  | info => 2

/-- The name of a severity. -/
def name : Severity → String
  | error => "ERROR"
  | warning => "WARNING"
  | info => "INFO"

/-- Whether a severity is at least as serious as a threshold. -/
def reaches (severity threshold : Severity) : Bool := decide (severity.rank ≤ threshold.rank)

end Severity

/-- What a check reports. -/
structure Finding where
  check : String
  severity : Severity
  message : String
  node : Option Int := none
  position : Option Int := none
deriving DecidableEq, Repr

/-- A number that may be missing, in running text. -/
def optionalText (value : Option Int) : String :=
  match value with
  | some value => integerText value
  | none => "None"

namespace Finding

/-- Where a finding is located. -/
def location (finding : Finding) : String :=
  match finding.node, finding.position with
  | some node, position => "node " ++ integerText node ++ ", position " ++ optionalText position
  | none, some position => "position " ++ integerText position
  | none, none => ""

/-- A finding in running text. -/
def text (finding : Finding) : String :=
  "[" ++ finding.severity.name ++ "] " ++ finding.check ++
    (if finding.location.isEmpty then "" else " (" ++ finding.location ++ ")") ++
    ": " ++ finding.message

end Finding

/-- Whether some finding is at least as serious as a threshold. -/
def anyReaches (findings : List Finding) (threshold : Severity) : Bool :=
  findings.any fun finding ↦ finding.severity.reaches threshold

/-- The failure of a checkpoint. -/
structure CheckFailure where
  checkpoint : Checkpoint
  findings : List Finding
  failOn : Severity := .error
  graphName : Option String := none
deriving DecidableEq, Repr

namespace CheckFailure

/-- The findings that reach the failing severity. -/
def fatal (failure : CheckFailure) : List Finding :=
  failure.findings.filter fun finding ↦ finding.severity.reaches failure.failOn

/-- The wording of a failure: a head line and one line for each fatal finding. -/
def message (failure : CheckFailure) : String :=
  let subject :=
    match failure.graphName with
    | some name => " for graph '" ++ name ++ "'"
    | none => ""
  let head :=
    "Validation failed" ++ subject ++ " at " ++ failure.checkpoint.name ++ " (" ++
      integerText failure.fatal.length ++ " issue(s)):"
  "\n".intercalate (head :: failure.fatal.map fun finding ↦ "  " ++ finding.text)

end CheckFailure

end Handover
