import Handover.Ledger.Fault
import Handover.OrderedMap
import Handover.Text.Identifier
import Handover.Text.Template

/-!
# The ownership ledger

The ledger decides for every reference to a value whether it must leave the value intact or may hand
it over. It works in two phases. While it is `building`, every producer and every future use is
registered in program order; while it is `emitting`, each use is resolved, and the last pending use
of a value hands the value over (`Ownership.move`) while every earlier one duplicates it.

A name may be produced several times. Each producer opens a `Generation`, and a use at a position
belongs to the generation with the greatest position at or below its own (`Ledger.visible?`), so
that a later definition hides an earlier value from later uses. All calls identify names by their
identifier form. A call that is refused changes nothing. When the ledger keeps a log, each call that
changes it adds one `Event`.
-/

set_option autoImplicit false
set_option relaxedAutoImplicit false

namespace Handover

/-- What a reference does with the value it names. -/
inductive Ownership
  /-- The value is still needed, and the reference leaves it intact. -/
  | duplicate
  /-- This is the last use, and the reference hands the value over. -/
  | move
deriving DecidableEq, Repr, Inhabited

/-- The name of an ownership decision. -/
def Ownership.name : Ownership → String
  | duplicate => "DUPLICATE"
  | move => "MOVE"

/-- How references are written: one template for a reference that leaves the value intact and one
for a reference that hands it over. -/
structure ReferenceStyle where
  duplicate : String := "\x7bname\x7d.clone()"
  move : String := "\x7bname\x7d"
deriving DecidableEq, Repr

/-- The outcome of resolving one use of a value. -/
structure Decision where
  ownership : Ownership
  name : String
  position : Int
deriving DecidableEq, Repr

namespace Decision

/-- Whether the use hands the value over. -/
def isMove (decision : Decision) : Bool := decision.ownership == .move

/-- The reference expression of a use. -/
def render (decision : Decision) (style : ReferenceStyle) : Except Template.Flaw String :=
  Template.fill (if decision.isMove then style.move else style.duplicate) decision.name

/-- The reference expression of a use in the default style. -/
def text (decision : Decision) : String :=
  if decision.isMove then decision.name else decision.name ++ ".clone()"

end Decision

/-- One producer of a name: where it stands, and how many uses are still pending. -/
structure Generation where
  position : Int
  pending : Nat
deriving DecidableEq, Repr

/-- Whether no use of a generation is pending. -/
def Generation.isExhausted (generation : Generation) : Bool := generation.pending == 0

/-- The generation with the given pending uses if it stands at a position, and else as it is. -/
def Generation.withPendingAt (position : Int) (pending : Nat) (generation : Generation) :
    Generation :=
  if generation.position = position then { generation with pending := pending } else generation

namespace Ledger

/-- Which calls the ledger accepts. -/
inductive Phase
  /-- Producers and future uses are registered. -/
  | building
  /-- Uses are resolved. -/
  | emitting
deriving DecidableEq, Repr, Inhabited

/-- The name of a phase. -/
def Phase.name : Phase → String
  | building => "BUILDING"
  | emitting => "EMITTING"

/-! ### Events -/

/-- What an event records. -/
inductive EventKind
  | produce
  | futureUse
  | use
  /-- A record under a label of its own. -/
  | custom (label : String)
deriving DecidableEq, Repr

/-- The label of a kind of event. -/
def EventKind.label : EventKind → String
  | produce => "produce"
  | futureUse => "future_use"
  | use => "use"
  | custom label => label

/-- The kind of event with a given label. -/
def EventKind.ofLabel (label : String) : EventKind :=
  if label = "produce" then produce
  else if label = "future_use" then futureUse
  else if label = "use" then use
  else custom label

/-- The record of one call: the name and position it was about, the pending uses after it, and the
decision when it resolved a use. -/
structure Event where
  kind : EventKind
  name : String
  position : Int
  pending : Int
  ownership : Option Ownership := none
deriving DecidableEq, Repr

/-- An event in running text. -/
def Event.text (event : Event) : String :=
  match event.kind with
  | .use =>
    "[scope] use " ++ event.name ++ "@" ++ integerText event.position ++ " -> " ++
      (if event.ownership = some .move then "move" else "clone") ++
      " (" ++ integerText event.pending ++ " left)"
  | .futureUse =>
    "[scope] future use " ++ event.name ++ "@" ++ integerText event.position ++
      " (" ++ integerText event.pending ++ " pending)"
  | _ => "[scope] produce " ++ event.name ++ "@" ++ integerText event.position

end Ledger

/-! ### The ledger and its calls -/

/-- The generations of every name in the order of first production, the phase, the position of the
last producer of any name, and the log if one is kept. -/
structure Ledger where
  producers : OrderedMap String (List Generation) := {}
  phase : Ledger.Phase := .building
  lastProduced : Option Int := none
  log : Option (List Ledger.Event) := none
deriving Inhabited

namespace Ledger

variable (ledger : Ledger)

/-- A ledger without producers, which continues the given log if there is one. -/
def fresh (log : Option (List Event)) : Ledger := { log := log }

/-- The ledger with an event at the end of its log. -/
def record (event : Event) : Ledger :=
  { ledger with log := ledger.log.map fun events ↦ events ++ [event] }

/-- The generations of an identifier, oldest first. -/
def generationsOf (ident : String) : List Generation := (ledger.producers.find? ident).getD []

/-- The generation among some, oldest first, with the greatest position at or below the given one:
the first one from the end that is not later. -/
def lastNotAfter (position : Int) (generations : List Generation) : Option Generation :=
  generations.reverse.find? fun generation ↦ generation.position ≤ position

/-- The generation of an identifier that a use at a position belongs to. -/
def visible? (ident : String) (position : Int) : Option Generation :=
  lastNotAfter position (ledger.generationsOf ident)

/-- The generation that a use belongs to, or the fault that there is none. -/
def visible (ident : String) (position : Int) : Except Refusal Generation :=
  match ledger.visible? ident position with
  | some generation => .ok generation
  | none => .error (.fault (.unknown ident (some position)))

/-- The ledger in which the generation of an identifier at a position has the given pending uses. -/
def setPending (ident : String) (position : Int) (pending : Nat) : Ledger :=
  { ledger with
    producers := ledger.producers.insert ident
      ((ledger.generationsOf ident).map (Generation.withPendingAt position pending)) }

@[simp] theorem generationsOf_setPending_self (ident : String) (position : Int) (pending : Nat) :
    (ledger.setPending ident position pending).generationsOf ident =
      (ledger.generationsOf ident).map (Generation.withPendingAt position pending) := by
  simp [setPending, generationsOf]

theorem generationsOf_setPending_of_ne {ident other : String} (h : other ≠ ident)
    (position : Int) (pending : Nat) :
    (ledger.setPending ident position pending).generationsOf other =
      ledger.generationsOf other := by
  simp [setPending, generationsOf, OrderedMap.find?_insert_of_ne _ h]

@[simp] theorem generationsOf_record (event : Event) (ident : String) :
    (ledger.record event).generationsOf ident = ledger.generationsOf ident := rfl

/-- Refuses an operation outside its phase. -/
def require (phase : Phase) (operation name : String) (position : Option Int) :
    Except Refusal Unit :=
  if ledger.phase = phase then .ok ()
  else .error (.fault (.wrongPhase operation ledger.phase.name name position))

/-- Ends the building phase. -/
def beginEmit : Except Refusal Ledger := do
  ledger.require .building "begin_emit" "" none
  return { ledger with phase := .emitting }

/-- Registers that a name is produced at a position. Registering the same name and position again
changes nothing; otherwise no producer of any name may stand at a later position. -/
def produce (name : String) (position : Int) : Except Refusal Ledger := do
  ledger.require .building "register_produced" name (some position)
  let ident := sanitize name
  let generations := ledger.generationsOf ident
  if generations.any fun generation ↦ generation.position = position then
    return ledger
  match ledger.lastProduced with
  | some last =>
    if position < last then
      throw (.misordered ident position last)
  | none => pure ()
  let extended : Ledger :=
    { ledger with
      producers := ledger.producers.insert ident (generations ++ [⟨position, 0⟩])
      lastProduced := some position }
  return extended.record ⟨.produce, ident, position, 0, none⟩

/-- Registers one future use of a name at a position. -/
def futureUse (name : String) (position : Int) : Except Refusal Ledger := do
  ledger.require .building "register_future_use" name (some position)
  let ident := sanitize name
  let generation ← ledger.visible ident position
  let pending := generation.pending + 1
  return (ledger.setPending ident generation.position pending).record
    ⟨.futureUse, ident, position, pending, none⟩

/-- Resolves one registered use of a name at a position. The last pending use of a generation hands
the value over. -/
def resolve (name : String) (position : Int) : Except Refusal (Decision × Ledger) := do
  ledger.require .emitting "resolve_use" name (some position)
  let ident := sanitize name
  let generation ← ledger.visible ident position
  if generation.isExhausted then
    throw (.fault (.unregistered ident position))
  let pending := generation.pending - 1
  let ownership := if pending = 0 then Ownership.move else Ownership.duplicate
  return (⟨ownership, ident, position⟩,
    (ledger.setPending ident generation.position pending).record
      ⟨.use, ident, position, pending, some ownership⟩)

/-! ### Lookups -/

/-- Whether a name has been produced. -/
def contains (name : String) : Bool := ledger.producers.contains (sanitize name)

/-- The generations of a name, oldest first. -/
def generations (name : String) : Except Refusal (List Generation) :=
  match ledger.producers.find? (sanitize name) with
  | some generations => .ok generations
  | none => .error (.fault (.unknown (sanitize name) none))

/-- The pending uses of the generation of a name that is visible at a position. -/
def pending (name : String) (position : Int) : Except Refusal Nat := do
  return (← ledger.visible (sanitize name) position).pending

/-- The produced identifiers, in the order of first production. -/
def names : List String := ledger.producers.keys

/-- The number of produced identifiers. -/
def size : Nat := ledger.producers.size

/-- The produced identifiers in the order of their characters. -/
def sortedNames : List String := ledger.names.mergeSort fun a b ↦ !decide (b < a)

/-- The generations with pending uses, by identifier and then oldest first. -/
def outstanding : List (String × Generation) :=
  ledger.sortedNames.flatMap fun ident ↦
    ((ledger.generationsOf ident).filter fun generation ↦ !generation.isExhausted).map
      fun generation ↦ (ident, generation)

end Ledger

end Handover
