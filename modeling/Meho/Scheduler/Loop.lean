import Meho.Auth.Operator
import Meho.Lib.Agenda
import Meho.Lib.History

/- Scheduled triggers and the loop that fires them on several replicas
(scheduler/repository.py, scheduler/loop.py).

A tick claims the triggers that are due and goes through them. What the run needs is
looked up first; if that fails the trigger stays due. Then a cron trigger is advanced
to its next match, a one-off one is marked fired, by a write that asks for what the
claim read, and after the commit the agent is invoked. Between these steps the ticks
of other replicas and cancellations may run.

Correspondence: `cancel` ↔ `cancelTrigger`, `run_one_tick`, `_fire_cron` and
`_fire_one_off` ↔ the actions `tick`, `claim`, `prepare`, `fire` and `dispatch`; what
is not listed keeps its name. `next_fire_after` is a parameter. The texts of skips are
left out. -/
namespace Meho.Scheduler
open Meho.Lib

inductive TriggerKind where
  | cron
  | oneOff
  | event
  deriving DecidableEq, Repr

inductive TriggerStatus where
  | active
  | paused
  | fired
  | cancelled
  deriving DecidableEq, Repr

/-- One row of `scheduled_trigger`. -/
structure ScheduledTrigger where
  id : Nat
  kind : TriggerKind
  cronExpr : Option String
  timezone : String
  nextFireAt : Option Time
  status : TriggerStatus
  lastFiredAt : Option Time
  skipCount : Nat
  deriving DecidableEq, Repr

abbrev TriggerDb := List ScheduledTrigger

/-- `UPDATE scheduled_trigger SET .. WHERE id = triggerId`. -/
def updateTrigger (db : TriggerDb) (triggerId : Nat) (f : ScheduledTrigger → ScheduledTrigger) :
    TriggerDb := db.map fun row => if row.id = triggerId then f row else row

/-! ## Statements -/

/-- `next_fire_after`: the next match of a cron expression after an instant, or the error. -/
abbrev NextFireAfter := (expr : String) → (base : Time) → (timezone : String) → Except String Time

/-- A match is strictly after the instant it is asked for. -/
def NextFireAfter.Strict (nextFireAfter : NextFireAfter) : Prop :=
  ∀ expr base timezone next, nextFireAfter expr base timezone = .ok next → base < next

def ScheduledTrigger.isDue (row : ScheduledTrigger) (now : Time) : Bool :=
  row.status = .active && row.nextFireAt.any (· ≤ now)

/-- `_CLAIM_BATCH_LIMIT`. -/
def claimBatchLimit : Nat := 50

/-- The due triggers, the most overdue one first. Rows in `locked` are held by other
transactions and passed over. -/
def claimDueTriggers (db : TriggerDb) (now : Time) (locked : List Nat) : List ScheduledTrigger :=
  let due := db.filter fun row => row.isDue now && row.id ∉ locked
  (due.mergeSort fun a b => decide (a.nextFireAt.getD now ≤ b.nextFireAt.getD now)).take
    claimBatchLimit

/-- The row of the table that the write of a claimed row matches. -/
def ScheduledTrigger.matchesClaim (claimed row : ScheduledTrigger) : Bool :=
  row.id = claimed.id && row.status = .active && row.nextFireAt = claimed.nextFireAt

/-- A write on the row that was claimed; `none` if the row has been moved since. -/
def writeClaimed (db : TriggerDb) (claimed : ScheduledTrigger)
    (f : ScheduledTrigger → ScheduledTrigger) : Option TriggerDb :=
  Agenda.cas claimed.matchesClaim f db

def ScheduledTrigger.advanced (newNext fireInstant : Time) (row : ScheduledTrigger) :
    ScheduledTrigger := { row with nextFireAt := some newNext, lastFiredAt := some fireInstant }

def ScheduledTrigger.markedFired (fireInstant : Time) (row : ScheduledTrigger) : ScheduledTrigger :=
  { row with status := .fired, lastFiredAt := some fireInstant }

/-- A cron trigger without an expression is not advanced. -/
def advanceCronTrigger (nextFireAfter : NextFireAfter) (db : TriggerDb)
    (claimed : ScheduledTrigger) (fireInstant : Time) : Except String (Option TriggerDb) :=
  match claimed.cronExpr with
  | none => .ok none
  | some expr => do
    let newNext ← nextFireAfter expr fireInstant claimed.timezone
    pure (writeClaimed db claimed (ScheduledTrigger.advanced newNext fireInstant))

def markOneOffFired (db : TriggerDb) (claimed : ScheduledTrigger) (fireInstant : Time) :
    Option TriggerDb :=
  writeClaimed db claimed (ScheduledTrigger.markedFired fireInstant)

/-- `_PARK_AFTER_CONSECUTIVE_SKIPS`. -/
def parkAfterConsecutiveSkips : Nat := 10

def recordSkip (db : TriggerDb) (claimed : ScheduledTrigger) : TriggerDb :=
  updateTrigger db claimed.id fun row =>
    if row.status = .active then
      { row with
        skipCount := claimed.skipCount + 1
        status := if parkAfterConsecutiveSkips ≤ claimed.skipCount + 1 then .paused else .active }
    else row

def clearSkipState (db : TriggerDb) (triggerId : Nat) : TriggerDb :=
  updateTrigger db triggerId fun row => { row with skipCount := 0 }

def parkTrigger (db : TriggerDb) (triggerId : Nat) : TriggerDb :=
  updateTrigger db triggerId fun row => { row with status := .paused }

def cancelTrigger (db : TriggerDb) (triggerId : Nat) : TriggerDb :=
  updateTrigger db triggerId fun row =>
    if row.status = .active || row.status = .paused then { row with status := .cancelled } else row

/-! ## The loop -/

/-- How far a tick is. -/
inductive TickStage where
  | idle
  | started (now : Time)
  | claimed (now : Time) (rows : List ScheduledTrigger)
  | prepared (now : Time) (row : ScheduledTrigger) (rows : List ScheduledTrigger)
  | fired (now : Time) (triggerId : Nat) (instant : Time) (rows : List ScheduledTrigger)

/-- The triggers and the replicas that fire them. -/
structure Schedulers where
  db : TriggerDb
  replicas : Nat → TickStage

/-- What a statement of a tick leaves behind. -/
inductive TriggerEvent where
  /-- The advance, or the mark, is committed. -/
  | taken (triggerId : Nat) (instant : Time)
  /-- The agent was invoked for the instant. -/
  | dispatched (triggerId : Nat) (instant : Time)
  deriving DecidableEq, Repr

/-- A statement of one replica's tick, or a call of the API. -/
inductive TriggerAct where
  | tick (p : Nat) (gotLock : Bool) (now : Time)
  | claim (p : Nat) (locked : List Nat)
  | prepare (p : Nat) (found : Bool)
  | fire (p : Nat)
  | dispatch (p : Nat)
  | skipRow (p : Nat)
  | abort (p : Nat)
  | cancel (triggerId : Nat)
  | delete (triggerId : Nat)

namespace Schedulers

def setStage (s : Schedulers) (p : Nat) (stage : TickStage) : Schedulers :=
  { s with replicas := Function.update s.replicas p stage }

end Schedulers

section Step
variable (nextFireAfter : NextFireAfter)

/-- The claimed row, written so that its instant is used up. -/
def fireRow (db : TriggerDb) (row : ScheduledTrigger) (fireInstant : Time) :
    Except String (Option TriggerDb) :=
  match row.kind with
  | .oneOff => .ok (markOneOffFired db row fireInstant)
  | _ => advanceCronTrigger nextFireAfter db row fireInstant

/-- What is written before the fire: the skips are over. -/
def beforeFire (db : TriggerDb) (row : ScheduledTrigger) : TriggerDb :=
  if 0 < row.skipCount then clearSkipState db row.id else db

def tickFire (s : Schedulers) (p : Nat) : Schedulers × List TriggerEvent :=
  match s.replicas p with
  | .prepared now row rows =>
    match fireRow nextFireAfter (beforeFire s.db row) row now with
    | .error _ =>
      ({ s with db := parkTrigger (beforeFire s.db row) row.id }.setStage p (.claimed now rows), [])
    -- the count that was cleared is not committed with this row
    | .ok none => (s.setStage p (.claimed now rows), [])
    | .ok (some db) =>
      let instant := row.nextFireAt.getD now
      ({ s with db := db }.setStage p (.fired now row.id instant rows), [.taken row.id instant])
  | _ => (s, [])

def triggerStep (s : Schedulers) : TriggerAct → Schedulers × List TriggerEvent
  | .tick p gotLock now =>
    match s.replicas p with
    | .idle => (if gotLock then s.setStage p (.started now) else s, [])
    | _ => (s, [])
  | .claim p locked =>
    match s.replicas p with
    | .started now => (s.setStage p (.claimed now (claimDueTriggers s.db now locked)), [])
    | _ => (s, [])
  | .prepare p found =>
    match s.replicas p with
    | .claimed _ [] => (s.setStage p .idle, [])
    | .claimed now (row :: rows) =>
      if row.kind = .event then
        -- an event trigger is not fired by the tick: it is parked
        ({ s with db := parkTrigger s.db row.id }.setStage p (.claimed now rows), [])
      else if found then (s.setStage p (.prepared now row rows), [])
      -- a precondition is not met: the skip is counted, and parks the trigger at the cap
      else ({ s with db := recordSkip s.db row }.setStage p (.claimed now rows), [])
    | _ => (s, [])
  | .fire p => tickFire nextFireAfter s p
  | .dispatch p =>
    match s.replicas p with
    | .fired now triggerId instant rows =>
      (s.setStage p (.claimed now rows), [.dispatched triggerId instant])
    | _ => (s, [])
  | .skipRow p =>
    match s.replicas p with
    | .claimed now (_ :: rows) => (s.setStage p (.claimed now rows), [])
    | .prepared now _ rows => (s.setStage p (.claimed now rows), [])
    | .fired now _ _ rows => (s.setStage p (.claimed now rows), [])
    | _ => (s, [])
  | .abort p => (s.setStage p .idle, [])
  | .cancel triggerId => ({ s with db := cancelTrigger s.db triggerId }, [])
  | .delete triggerId => ({ s with db := s.db.filter (·.id ≠ triggerId) }, [])

/-- Several replicas over one table. -/
def triggerMachine (db : TriggerDb) : Machine Schedulers TriggerAct TriggerEvent :=
  ⟨⟨db, fun _ => .idle⟩, triggerStep nextFireAfter⟩

end Step

end Meho.Scheduler
