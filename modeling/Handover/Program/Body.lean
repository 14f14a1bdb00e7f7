import Handover.Ledger.Basic
import Handover.Program.Slot

/-!
# Program bodies

The body of a generated module before it is text: one `Statement` for each node and the returned
references. A reference names a buffer of the module or a local variable; a reference to a variable
carries the decision of the ledger (`Reference`). `Body.lines` writes the body, and `Body.stats`
counts how its references were written.
-/

set_option autoImplicit false
set_option relaxedAutoImplicit false

namespace Handover

/-- One reference to a value: the expression that names the value, whether the slot owns it, the
decision of the ledger when the value is a local variable, and the text of the reference. -/
structure Reference where
  subject : String
  owned : Bool
  decision : Option Decision
  text : String
deriving DecidableEq, Repr

namespace Reference

/-- Whether the reference hands its value over. -/
def isMove (reference : Reference) : Bool :=
  match reference.decision with
  | some decision => decision.isMove
  | none => false

/-- Whether the reference is written as a copy: it is owned and does not hand its value over. -/
def isClone (reference : Reference) : Bool := reference.owned && !reference.isMove

end Reference

/-- The statement of a node: whether its expression owns the first input, the references to its
inputs, and the expression. -/
structure Statement where
  node : Node
  owned : Bool
  references : List Reference
  expression : String

namespace Statement

/-- The identifiers that a statement binds. -/
def targets (statement : Statement) : List String := statement.node.outputs.map sanitize

/-- Whether the single target of a statement takes the only entry of a tuple. -/
def unpacksOne (statement : Statement) : Bool :=
  statement.node.op.yieldsTuple && statement.node.outputs.length == 1

/-- A statement as a line. -/
def line (statement : Statement) : String :=
  ", ".intercalate statement.targets ++ (if statement.unpacksOne then "," else "") ++ " = " ++
    statement.expression

end Statement

/-- How the references of a body were written. -/
structure Stats where
  /-- Uses resolved by the ledger, the returned ones included. -/
  uses : Int := 0
  /-- Uses that kept their value alive. -/
  duplicates : Int := 0
  /-- Uses that were the last of their value. -/
  moves : Int := 0
  /-- Copies written, which only owned slots need. -/
  clones : Int := 0
  /-- Statements that own their first input. -/
  inPlace : Int := 0
deriving DecidableEq, Repr

/-- Statistics as a line. -/
def Stats.text (stats : Stats) : String :=
  "Codegen: " ++ integerText stats.uses ++ " uses (" ++ integerText stats.moves ++ " moves, " ++
    integerText stats.duplicates ++ " duplicates), " ++ integerText stats.clones ++
    " clones emitted, " ++ integerText stats.inPlace ++ " owned-input nodes"

/-- The statements of a program and the references it returns. -/
structure Body where
  statements : List Statement
  returned : List Reference

namespace Body

variable (body : Body)

/-- Every reference, in program order. -/
def references : List Reference := body.statements.flatMap Statement.references ++ body.returned

/-- The decisions of the ledger, in program order. -/
def decisions : List Decision := body.references.filterMap Reference.decision

/-- How the references were written. -/
def stats : Stats where
  uses := body.decisions.length
  duplicates := (body.decisions.filter fun decision ↦ !decision.isMove).length
  moves := (body.decisions.filter Decision.isMove).length
  clones := (body.references.filter Reference.isClone).length
  inPlace := (body.statements.filter Statement.owned).length

/-- The last line of a body. -/
def returnLine : String :=
  match body.returned with
  | [] => "return None"
  | returned => "return " ++ ", ".intercalate (returned.map Reference.text)

/-- A body as lines: one for each statement, and the return. -/
def lines : List String := body.statements.map Statement.line ++ [body.returnLine]

end Body

end Handover
