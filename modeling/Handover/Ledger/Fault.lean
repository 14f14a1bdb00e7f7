import Handover.Attr.Characters

/-!
# Refusals of the ledger

Why the ledger refuses a call. A `Ledger.Fault` is an inconsistency between the calls and the
protocol of two phases: a use that no producer precedes, a use that was never registered, or a call
in the wrong phase. A producer that is registered out of order is refused as well, but as a plain
`Ledger.Refusal`. Faults carry the name and the position that the call was about.
-/

set_option autoImplicit false
set_option relaxedAutoImplicit false

namespace Handover

/-- An integer in running text. -/
def integerText (value : Int) : String := String.ofList (integerNumeral value)

namespace Ledger

/-- An inconsistency between a call and the protocol. -/
inductive Fault
  /-- A fault with wording of its own. -/
  | general (name : String) (position : Option Int) (wording : String)
  /-- No generation of the name is visible at the position. -/
  | unknown (name : String) (position : Option Int)
  /-- The visible generation has no pending use left. -/
  | unregistered (name : String) (position : Int)
  /-- The operation does not belong to the phase. -/
  | wrongPhase (operation phase name : String) (position : Option Int)
deriving DecidableEq, Repr

/-- Why a call is refused. -/
inductive Refusal
  | fault (cause : Fault)
  /-- A producer is registered at an earlier position than the last one. -/
  | misordered (ident : String) (position last : Int)
deriving DecidableEq, Repr

namespace Fault

/-- The name a fault is about. -/
def name : Fault → String
  | general name _ _ => name
  | unknown name _ => name
  | unregistered name _ => name
  | wrongPhase _ _ name _ => name

/-- The position a fault is about. -/
def position : Fault → Option Int
  | general _ position _ => position
  | unknown _ position => position
  | unregistered _ position => some position
  | wrongPhase _ _ _ position => position

/-- The wording of a fault. -/
def message : Fault → String
  | general _ _ wording => wording
  | unknown name none => "No variable with name '" ++ name ++ "'"
  | unknown name (some position) =>
    "No variable with name '" ++ name ++ "' at position " ++ integerText position
  | unregistered name position =>
    "Use of '" ++ name ++ "' at position " ++ integerText position ++
      " was never registered (pending uses already exhausted)"
  | wrongPhase operation phase _ _ =>
    operation ++ "() is not allowed while the scope is " ++ phase

end Fault

/-- The wording of a refusal. -/
def Refusal.message : Refusal → String
  | fault cause => cause.message
  | misordered ident position last =>
    "'" ++ ident ++ "' produced at position " ++ integerText position ++
      " after a producer at position " ++ integerText last

end Ledger

end Handover
