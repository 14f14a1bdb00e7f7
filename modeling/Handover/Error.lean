import Handover.Check.Finding
import Handover.Op
import Handover.Text.Template

/-!
# Errors

Why a call cannot be answered (`Error`). A lookup may miss its key, the ledger may refuse a call, a
ledger fault may stop the generation of one graph (`GenerationFailure`), a checkpoint may fail, and
a call may break a rule that has a wording (`Complaint`) or one that has none (`Flaw`).
-/

set_option autoImplicit false
set_option relaxedAutoImplicit false

namespace Handover

/-- A ledger fault in the generation of a graph, with the node and the position that met it; a fault
of the return statement has no node. -/
structure GenerationFailure where
  graphName : String
  node : Option Int
  position : Int
  cause : Ledger.Fault
deriving DecidableEq, Repr

/-- The wording of a generation failure. -/
def GenerationFailure.message (failure : GenerationFailure) : String :=
  let site :=
    match failure.node with
    | some node => "node " ++ integerText node
    | none => "return"
  "Code generation failed for graph '" ++ failure.graphName ++ "' at " ++ site ++ " (position " ++
    integerText failure.position ++ "): " ++ failure.cause.message

/-- A rule with a wording that a call breaks. -/
inductive Complaint
  | duplicateTensor (name : String)
  | noOutputs (op : Op)
  | unregisteredInput (name : String)
  | unregisteredOutput (name : String)
  | templateWithoutName (label template : String)
  | invalidClassName (name : String)
  | unknownStrictness (strictness : String)
  | duplicateGraphs (names : List String)
  | missingInput (name : String)
  | noData (name : String)
  | undefinedOp (op : Op)
  | storageNotReal (name : String)
  | duplicateCheck (name : String) (checkpoint : Checkpoint)
  | wrongTarget (checkpoint : Checkpoint) (target : String)
  | notStorable (typeName : String)
deriving DecidableEq, Repr

/-- The wording of a complaint. -/
def Complaint.message : Complaint → String
  | duplicateTensor name => "Duplicate tensor name: " ++ name
  | noOutputs op => op.name ++ " node needs at least one output"
  | unregisteredInput name => "Input tensor '" ++ name ++ "' not registered"
  | unregisteredOutput name => "Output tensor '" ++ name ++ "' not registered"
  | templateWithoutName label template =>
    label ++ " template must contain '\x7bname\x7d', got '" ++ template ++ "'"
  | invalidClassName name => "class_name '" ++ name ++ "' is not a valid identifier"
  | unknownStrictness strictness =>
    "Unknown validation '" ++ strictness ++ "' (expected 'strict', 'normal', or 'none')"
  | duplicateGraphs names => "Duplicate graph names: " ++ ", ".intercalate names
  | missingInput name => "Missing input tensor: '" ++ name ++ "'"
  | noData name => "Constant '" ++ name ++ "' has no data loaded"
  | undefinedOp op => "No definition for op " ++ op.name
  | storageNotReal name => "Storage dtype must be floating point, got '" ++ name ++ "'"
  | duplicateCheck name checkpoint =>
    "Validator '" ++ name ++ "' already registered for " ++ checkpoint.name
  | wrongTarget checkpoint target =>
    checkpoint.name ++ " checks a " ++ checkpoint.targetName ++ ", got " ++ target
  | notStorable typeName => "Not JSON serializable: " ++ typeName

/-- A rule without a wording that a call breaks. -/
inductive Flaw
  /-- An operator has fewer operands than it reads. -/
  | missingOperand
  /-- An index is beyond the end of a list. -/
  | pastEnd
  /-- A template cannot be filled. -/
  | template (flaw : Template.Flaw)
  /-- A value of one kind stands where another is needed. -/
  | wrongKind
  /-- A value lacks what is asked of it. -/
  | noMember
  /-- An integer has more digits than one is written or read with. -/
  | integerTooLong
  /-- A text that should hold an integer does not. -/
  | malformedInteger
  /-- A stored text that should hold a number does not. -/
  | malformedNumber
  /-- A not-a-number stands where an integer is needed. -/
  | integerOfNaN
  /-- An infinity stands where an integer is needed. -/
  | integerOfInfinity
  /-- A document is malformed. -/
  | malformedDocument
  /-- The bytes of a document are no text. -/
  | malformedText
  /-- A document nests deeper than it can be read. -/
  | nestedTooDeep
  /-- A path ends in no file name. -/
  | noFileName
  /-- There is no such file. -/
  | noFile
  /-- A file name is longer than a file name can be. -/
  | fileNameTooLong
  /-- A file name holds the null character. -/
  | nullInFileName
  /-- A text names no element type. -/
  | unknownElementType
  /-- The stored weights do not hold the elements asked for. -/
  | weightsOutOfRange
  /-- A number is divided by zero. -/
  | divisionByZero
  /-- A collection would be larger than memory is. -/
  | tooLarge
  /-- The shapes of operands do not fit together, or a shape does not fit its elements. -/
  | shapeMismatch
  /-- An axis lies outside the dimensions of a tensor. -/
  | axisOutOfRange
  /-- An axis does not fit the word that counts dimensions. -/
  | axisTooWide
  /-- A dimension to split along lies outside the dimensions of a tensor. -/
  | dimensionOutOfRange
  /-- An axis is listed twice. -/
  | repeatedAxis
  /-- A maximum is taken over no elements. -/
  | emptyMaximum
  /-- An integer is raised to a negative power. -/
  | negativePower
  /-- An operation is not defined on truth values. -/
  | truthArithmetic
  /-- An operation has no form for its operands. -/
  | unsupportedOperands
  /-- A number is too large for the element type it is brought to. -/
  | numberOutOfRange
deriving DecidableEq, Repr

/-- Why a call cannot be answered. -/
inductive Error
  /-- A lookup misses its key. -/
  | noEntry (key : Attr)
  /-- An operator has no definition. -/
  | noDefinition (op : Op)
  | ledger (refusal : Ledger.Refusal)
  | generation (failure : GenerationFailure)
  | check (failure : CheckFailure)
  | complaint (rule : Complaint)
  | flaw (rule : Flaw)

namespace Error

/-- The error of a lookup that misses a name. -/
def noName (name : String) : Error := noEntry (.text name)

/-- The wording of an error, for those that have one. -/
def message? : Error → Option String
  | noEntry key => some (String.ofList key.literalCharacters)
  | noDefinition op =>
    some ("<OpType." ++ op.name ++ ": " ++ integerText op.code ++ ">")
  | ledger refusal => some refusal.message
  | generation failure => some failure.message
  | check failure => some failure.message
  | complaint rule => some rule.message
  | flaw (.template (.unknownField field)) => some (Text.quote field)
  | flaw _ => none

end Error

/-- The result of a call. -/
abbrev Result (α : Type) : Type := Except Error α

/-- A call that breaks a rule without a wording. -/
def fails {α : Type} (flaw : Flaw) : Result α := .error (.flaw flaw)

/-- A call that breaks a rule with a wording. -/
def complains {α : Type} (complaint : Complaint) : Result α := .error (.complaint complaint)

end Handover
