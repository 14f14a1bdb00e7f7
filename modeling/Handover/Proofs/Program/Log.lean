import Handover.Generation
import Handover.Proofs.Computation

/-!
# The log of a ledger

A ledger that keeps a log makes the same decisions as one that keeps none: every call does to the
ledger without its log what it does to the ledger (`Ledger.produce_withoutLog` and its like), and so
does the writing of a body (`overlooksLog_writeBody`).
-/

set_option autoImplicit false
set_option relaxedAutoImplicit false

namespace Handover

namespace Ledger

/-- The ledger without its log. -/
def withoutLog (ledger : Ledger) : Ledger := { ledger with log := none }

variable (ledger : Ledger)

theorem produce_withoutLog (name : String) (position : Int) :
    ledger.withoutLog.produce name position = (ledger.produce name position).map withoutLog := by
  have hrequire : ledger.withoutLog.require .building "register_produced" name (some position) =
      ledger.require .building "register_produced" name (some position) := rfl
  have hgenerations : ledger.withoutLog.generationsOf (sanitize name) =
      ledger.generationsOf (sanitize name) := rfl
  have hlast : ledger.withoutLog.lastProduced = ledger.lastProduced := rfl
  unfold produce
  rw [hrequire]
  cases ledger.require .building "register_produced" name (some position) with
  | error refusal => rfl
  | ok _ =>
    simp only [bind, Except.bind, hgenerations, hlast]
    split_ifs
    · rfl
    · split
      · split_ifs <;> rfl
      · rfl

theorem futureUse_withoutLog (name : String) (position : Int) :
    ledger.withoutLog.futureUse name position =
      (ledger.futureUse name position).map withoutLog := by
  have hrequire : ledger.withoutLog.require .building "register_future_use" name (some position) =
      ledger.require .building "register_future_use" name (some position) := rfl
  have hvisible : ledger.withoutLog.visible (sanitize name) position =
      ledger.visible (sanitize name) position := rfl
  unfold futureUse
  rw [hrequire]
  cases ledger.require .building "register_future_use" name (some position) with
  | error refusal => rfl
  | ok _ =>
    simp only [bind, Except.bind, hvisible]
    cases ledger.visible (sanitize name) position <;> rfl

theorem beginEmit_withoutLog :
    ledger.withoutLog.beginEmit = ledger.beginEmit.map withoutLog := by
  unfold beginEmit require
  show (if ledger.phase = .building then _ else _ : Except Refusal Unit) >>= _ = _
  split_ifs <;> rfl

theorem resolve_withoutLog (name : String) (position : Int) :
    ledger.withoutLog.resolve name position =
      (ledger.resolve name position).map (Prod.map id withoutLog) := by
  have hrequire : ledger.withoutLog.require .emitting "resolve_use" name (some position) =
      ledger.require .emitting "resolve_use" name (some position) := rfl
  have hvisible : ledger.withoutLog.visible (sanitize name) position =
      ledger.visible (sanitize name) position := rfl
  unfold resolve
  rw [hrequire]
  cases ledger.require .emitting "resolve_use" name (some position) with
  | error refusal => rfl
  | ok _ =>
    simp only [bind, Except.bind, hvisible]
    cases ledger.visible (sanitize name) position with
    | error refusal => rfl
    | ok generation =>
      dsimp only
      split_ifs <;> rfl

end Ledger

/-! ### Computations on a ledger -/

namespace Bookkeeping

variable {α β : Type}

/-- Whether a computation does to a ledger without its log what it does to the ledger. -/
def OverlooksLog (computation : Bookkeeping α) : Prop :=
  ∀ ledger : Ledger,
    computation ledger.withoutLog = ((computation ledger).1, (computation ledger).2.withoutLog)

theorem overlooksLog_lift (result : Result α) : OverlooksLog (lift result) := fun _ ↦ rfl

theorem overlooksLog_pure (value : α) : OverlooksLog (pure value : Bookkeeping α) := fun _ ↦ rfl

theorem OverlooksLog.bind {first : Bookkeeping α} {next : α → Bookkeeping β}
    (hfirst : OverlooksLog first) (hnext : ∀ value, OverlooksLog (next value)) :
    OverlooksLog (first >>= next) := by
  intro ledger
  rw [Stateful.run_bind, Stateful.run_bind, hfirst ledger]
  rcases first ledger with ⟨err | value, reached⟩
  · rfl
  · exact hnext value reached

theorem OverlooksLog.mapM {items : List α} {call : α → Bookkeeping β}
    (hcall : ∀ item, OverlooksLog (call item)) : OverlooksLog (items.mapM call) := by
  induction items with
  | nil => exact overlooksLog_pure []
  | cons item rest ih =>
    rw [List.mapM_cons]
    exact (hcall item).bind fun _ ↦ ih.bind fun _ ↦ overlooksLog_pure _

theorem OverlooksLog.forM {items : List α} {call : α → Bookkeeping Unit}
    (hcall : ∀ item, OverlooksLog (call item)) : OverlooksLog (items.forM call) := by
  induction items with
  | nil => exact overlooksLog_pure ()
  | cons item rest ih =>
    show OverlooksLog (call item >>= fun _ ↦ rest.forM call)
    exact (hcall item).bind fun _ ↦ ih

/-- A call for a site overlooks the log if the change of the ledger does. -/
theorem overlooksLog_call {graphName : String} {site : Site}
    {operation : Ledger → Except Ledger.Refusal (α × Ledger)}
    (hoperation : ∀ ledger : Ledger,
      operation ledger.withoutLog = (operation ledger).map (Prod.map id Ledger.withoutLog)) :
    OverlooksLog (call graphName site operation) := by
  intro ledger
  unfold call
  rw [hoperation ledger]
  cases operation ledger <;> rfl

theorem overlooksLog_plainCall {operation : Ledger → Except Ledger.Refusal Ledger}
    (hoperation : ∀ ledger : Ledger,
      operation ledger.withoutLog = (operation ledger).map Ledger.withoutLog) :
    OverlooksLog (plainCall operation) := by
  intro ledger
  unfold plainCall
  rw [hoperation ledger]
  cases operation ledger <;> rfl

end Bookkeeping

open Bookkeeping

section Body

variable (ops : List Op) (graph : Graph) (style : ReferenceStyle)

theorem overlooksLog_perform (call : BuildCall) : OverlooksLog (call.perform graph.name) := by
  cases call with
  | produce name position =>
    exact overlooksLog_plainCall fun ledger ↦ ledger.produce_withoutLog name position
  | futureUse site name =>
    refine overlooksLog_call fun ledger ↦ ?_
    rw [ledger.futureUse_withoutLog name site.position]
    cases ledger.futureUse name site.position <;> rfl

theorem overlooksLog_buildLedger : OverlooksLog (buildLedger graph) :=
  (OverlooksLog.forM (overlooksLog_perform graph)).bind fun _ ↦
    overlooksLog_plainCall Ledger.beginEmit_withoutLog

theorem overlooksLog_resolveUse (site : Site) (name : String) :
    OverlooksLog (resolveUse graph site name) :=
  overlooksLog_call fun ledger ↦ ledger.resolve_withoutLog name site.position

theorem overlooksLog_emitReference (site : Site) (name : String) (owned : Bool) :
    OverlooksLog (emitReference graph style site name owned) := by
  unfold emitReference
  split_ifs
  · exact overlooksLog_lift _
  · exact (overlooksLog_resolveUse graph site name).bind fun _ ↦ overlooksLog_lift _

theorem overlooksLog_emitStatement (node : Node) (index : Nat) :
    OverlooksLog (emitStatement ops graph style node index) :=
  (overlooksLog_lift _).bind fun _ ↦
    (OverlooksLog.mapM fun _ ↦ overlooksLog_emitReference graph style _ _ _).bind fun _ ↦
      (overlooksLog_lift _).bind fun _ ↦ overlooksLog_pure _

theorem overlooksLog_emitBody : OverlooksLog (emitBody ops graph style) := by
  unfold emitBody
  refine .bind (.mapM fun entry ↦ ?_) fun statements ↦ .bind (.mapM fun name ↦ ?_) fun returned ↦
    .bind (.forM fun name ↦ ?_) fun _ ↦ ?_
  · exact overlooksLog_emitStatement ops graph style entry.1 entry.2
  · exact overlooksLog_emitReference graph style graph.returnSite name true
  · exact (overlooksLog_resolveUse graph ⟨none, 0⟩ name).bind fun _ ↦ overlooksLog_pure ()
  · exact overlooksLog_pure _

/-- The writing of a body overlooks the log. -/
theorem overlooksLog_writeBody : OverlooksLog (writeBody ops graph style) :=
  (overlooksLog_buildLedger graph).bind fun _ ↦ overlooksLog_emitBody ops graph style

end Body

end Handover
