import Mathlib.Data.List.Sort
import Meho.Scheduler.Loop

/- The event outbox, its drain on several replicas, and the subscriptions it fires
(events/drain.py, events/matcher.py).

A tick of the drain takes the advisory lock, claims a batch of unprocessed events and
goes through it. For an event it reads the triggers that match, tries each of them, and
stamps the event processed. A trigger that is tried may be refused, may find the run of
an earlier delivery, may raise, or starts a run. Each of these is a transaction of its
own, and between any two of them producers publish, triggers change, other runs start,
and the process may die.

The advisory lock is exclusive: only the replica that holds it has a tick in hand.

Correspondence: `_fire_event_trigger` ↔ the actions `consider` and `launch`,
`fire_matching_triggers` ↔ `readTriggers` and these two for each trigger,
`run_one_drain_tick` ↔ `lock`, `stamp`, `skipEvent` and `unlock`; what is not listed
keeps its name. Equality of JSON scalars is a parameter. So are the answers of
`_prepare_invocation` and of `run_scheduled`, which come with the actions; the tenant
of an agent's token is a parameter. Prompts are left out. -/
namespace Meho.Events
open Meho.Lib
open Meho.Scheduler (TriggerKind TriggerStatus)

/-- One row of `event_outbox`. -/
structure EventOutbox where
  eventId : Nat
  tenantId : Nat
  eventKind : String
  payload : Dict
  claimedAt : Option Time
  claimedBy : Option Nat
  processedAt : Option Time

/-- One row of `scheduled_trigger`, as the matcher reads it. -/
structure EventTrigger where
  id : Nat
  tenantId : Nat
  kind : TriggerKind
  status : TriggerStatus
  agentDefinitionId : Nat
  identityRef : String
  eventFilter : Option Dict

/-- One row of `agent_run`, as the matcher reads it. -/
structure WorkRun where
  tenantId : Nat
  workRef : Option String
  deriving DecidableEq, Repr

/-! ## Matching -/

section Matching
variable (scalarEq : Json → Json → Bool)

mutual
/-- `_payload_contains`: does the first contain the second? -/
def payloadContains (container : Json) : Json → Bool
  | .obj fields => match container with
    | .obj have_ => containsFields have_ fields
    | _ => false
  | .arr items => match container with
    | .arr have_ => containsItems have_ items
    | _ => false
  | .null => scalarEq container .null
  | .bool b => scalarEq container (.bool b)
  | .int i => scalarEq container (.int i)
  | .float text => scalarEq container (.float text)
  | .str s => scalarEq container (.str s)

/-- Every key is there, and its value is contained. -/
def containsFields (have_ : Dict) : List (String × Json) → Bool
  | [] => true
  | (key, value) :: fields =>
    (match dictGet have_ key with
      | some v => payloadContains v value
      | none => false) && containsFields have_ fields

/-- Every element is contained in some element. -/
def containsItems (have_ : List Json) : List Json → Bool
  | [] => true
  | item :: items => have_.any (payloadContains · item) && containsItems have_ items
end

/-- `_matching_event_triggers`: the tenant's active event triggers whose filter the payload
contains. -/
def matchingEventTriggers (triggers : List EventTrigger) (event : EventOutbox) :
    List EventTrigger :=
  triggers.filter fun t =>
    t.kind = .event && t.status = .active && t.tenantId = event.tenantId &&
      payloadContains scalarEq (.obj event.payload) (.obj (t.eventFilter.getD []))

end Matching

/-- The dedupe key of a fire. -/
def eventWorkRef (eventId triggerId : Nat) : String :=
  "event:" ++ toString eventId ++ ":" ++ toString triggerId

def runExistsForWorkRef (runs : List WorkRun) (tenantId : Nat) (workRef : String) : Bool :=
  decide (⟨tenantId, some workRef⟩ ∈ runs)

def agentRunCompletedEventKind : String := "agent_run.completed"

/-- The event is the completion of the agent that the trigger starts. -/
def isSelfTriggerCompletion (event : EventOutbox) (t : EventTrigger) : Bool :=
  event.eventKind = agentRunCompletedEventKind &&
    dictGetStr event.payload "agent_definition_id" = some (toString t.agentDefinitionId)

/-! ## Statements on the outbox -/

def drainBatchLimit : Nat := 100

/-- The oldest unprocessed events. -/
def claimUnprocessed (outbox : List EventOutbox) : List EventOutbox :=
  ((outbox.filter fun e => e.processedAt.isNone).insertionSort
    fun a b => a.eventId ≤ b.eventId).take drainBatchLimit

def stampClaim (now : Time) (claimedBy : Nat) (rows outbox : List EventOutbox) : List EventOutbox :=
  outbox.map fun e =>
    if rows.any (·.eventId = e.eventId) then
      { e with claimedAt := some now, claimedBy := some claimedBy }
    else e

/-- `UPDATE .. SET processed_at WHERE event_id = .. AND processed_at IS NULL`. -/
def markProcessed (now : Time) (eventId : Nat) (outbox : List EventOutbox) : List EventOutbox :=
  outbox.map fun e =>
    if e.eventId = eventId ∧ e.processedAt = none then { e with processedAt := some now } else e

/-! ## The drain -/

/-- Why a trigger was not fired for good. -/
inductive Refusal where
  | selfCompletion
  /-- `_PreconditionSkip`: definition missing, disabled, credentials unresolved. -/
  | precondition (reason : String)
  /-- `AgentNotFoundError`, `AgentDisabledError`, `AgentInvocationError`: the same asked again
  when the run is launched. -/
  | invocation (reason : String)
  | budget (reason : String)
  deriving DecidableEq, Repr

/-- What `_prepare_invocation` answers, or that it or the duplicate check raised. -/
inductive Prepared where
  | ready
  | skip (reason : String)
  | failed
  deriving DecidableEq, Repr

/-- What `run_scheduled` does: it creates the run's row, is refused, or fails before that.
`_dispatch_invocation` logs a failed token grant, `fire_matching_triggers` any other error. -/
inductive Launched where
  | started
  | refused (reason : String)
  | overBudget (reason : String)
  | failed
  deriving DecidableEq, Repr

/-- What becomes of a trigger before its run is launched. -/
inductive Considered where
  | refused (reason : Refusal)
  | failed
  | deduped
  | fires

/-- The delivery of one event: the triggers still to be tried. -/
structure Delivery where
  event : EventOutbox
  queue : List EventTrigger
  /-- Not in the source: the trigger table as the delivery read it. -/
  table : List EventTrigger
  /-- Not in the source: an error of a dispatch was logged and passed over. -/
  passedOver : Bool

/-- Where a tick is. -/
inductive TickStage where
  | batch (now : Time) (rows : List EventOutbox)
  | delivering (now : Time) (delivery : Delivery) (rows : List EventOutbox)
  | launching (now : Time) (trigger : EventTrigger) (delivery : Delivery) (rows : List EventOutbox)

/-- The database, and the replica that holds the drain lock with its tick. -/
structure EventBus where
  outbox : List EventOutbox
  triggers : List EventTrigger
  runs : List WorkRun
  drain : Option (Nat × TickStage)

/-- A statement of a replica's drain, or a change beside it. -/
inductive EventAct where
  | publish (eventId tenantId : Nat) (eventKind : String) (payload : Dict)
  /-- Triggers are created, edited, paused or deleted: the table as it is then. -/
  | editTriggers (triggers : List EventTrigger)
  /-- A run that no delivery started. -/
  | otherRun (tenantId : Nat) (workRef : Option String)
  | lock (replica : Nat) (now : Time)
  | readTriggers (replica : Nat)
  | consider (replica : Nat) (answer : Prepared)
  | launch (replica : Nat) (answer : Launched)
  | stamp (replica : Nat)
  /-- The delivery raised outside the triggers' own handlers: it is rolled back. -/
  | skipEvent (replica : Nat)
  | unlock (replica : Nat)
  | crash (replica : Nat)

/-- What became of one trigger of one event. -/
inductive BusEvent where
  | started (eventId triggerId : Nat)
  | refused (eventId triggerId : Nat) (reason : Refusal)
  | passedOver (eventId triggerId : Nat)
  /-- With the trigger table as the delivery read it. -/
  | stamped (eventId : Nat) (table : List EventTrigger)

section Steps
variable (scalarEq : Json → Json → Bool) (grantTenant : Nat → String → Nat)

/-- The stage of a replica that holds the lock. -/
def EventBus.stage (s : EventBus) (replica : Nat) : Option TickStage :=
  match s.drain with
  | some (p, stage) => if p = replica then some stage else none
  | none => none

def EventBus.to (s : EventBus) (replica : Nat) (stage : TickStage) : EventBus :=
  { s with drain := some (replica, stage) }

/-- `_fire_event_trigger` up to the launch. -/
def considerTrigger (runs : List WorkRun) (event : EventOutbox) (t : EventTrigger)
    (answer : Prepared) : Considered :=
  if isSelfTriggerCompletion event t then .refused .selfCompletion
  else match answer with
    | .failed => .failed
    | .skip reason => .refused (.precondition reason)
    | .ready =>
      if runExistsForWorkRef runs t.tenantId (eventWorkRef event.eventId t.id) then .deduped
      else .fires

/-- One step. A replica without the lock does nothing. -/
def busStep (s : EventBus) : EventAct → EventBus × List BusEvent
  | .publish eventId tenantId eventKind payload =>
    (if s.outbox.any (·.eventId = eventId) then s else
      { s with outbox := s.outbox ++ [⟨eventId, tenantId, eventKind, payload, none, none, none⟩] }, [])
  | .editTriggers triggers => ({ s with triggers }, [])
  | .otherRun tenantId workRef => ({ s with runs := s.runs ++ [⟨tenantId, workRef⟩] }, [])
  | .lock replica now =>
    -- the advisory lock: one drain at a time
    match s.drain with
    | some _ => (s, [])
    | none =>
      let rows := claimUnprocessed s.outbox
      ({ s with outbox := stampClaim now replica rows s.outbox
                drain := some (replica, .batch now rows) }, [])
  | .readTriggers replica =>
    match s.stage replica with
    | some (.batch now (event :: rows)) =>
      (s.to replica (.delivering now
        ⟨event, matchingEventTriggers scalarEq s.triggers event, s.triggers, false⟩ rows), [])
    | _ => (s, [])
  | .consider replica answer =>
    match s.stage replica with
    | some (.delivering now ⟨event, t :: queue, table, passedOver⟩ rows) =>
      match considerTrigger s.runs event t answer with
      | .refused reason =>
        (s.to replica (.delivering now ⟨event, queue, table, passedOver⟩ rows),
          [.refused event.eventId t.id reason])
      | .failed =>
        -- the failure is logged and the next trigger is considered
        (s.to replica (.delivering now ⟨event, queue, table, true⟩ rows),
          [.passedOver event.eventId t.id])
      | .deduped => (s.to replica (.delivering now ⟨event, queue, table, passedOver⟩ rows), [])
      | .fires => (s.to replica (.launching now t ⟨event, queue, table, passedOver⟩ rows), [])
    | _ => (s, [])
  | .launch replica answer =>
    match s.stage replica with
    | some (.launching now t delivery rows) =>
      match answer with
      | .started =>
        ({ s.to replica (.delivering now delivery rows) with
            runs := s.runs ++ [⟨grantTenant t.tenantId t.identityRef,
              some (eventWorkRef delivery.event.eventId t.id)⟩] },
          [.started delivery.event.eventId t.id])
      | .refused reason =>
        (s.to replica (.delivering now delivery rows),
          [.refused delivery.event.eventId t.id (.invocation reason)])
      | .overBudget reason =>
        (s.to replica (.delivering now delivery rows),
          [.refused delivery.event.eventId t.id (.budget reason)])
      | .failed =>
        -- the launch failed: logged, and the event is stamped all the same
        (s.to replica (.delivering now { delivery with passedOver := true } rows),
          [.passedOver delivery.event.eventId t.id])
    | _ => (s, [])
  | .stamp replica =>
    match s.stage replica with
    | some (.delivering now ⟨event, [], table, _⟩ rows) =>
      ({ s.to replica (.batch now rows) with outbox := markProcessed now event.eventId s.outbox },
        [.stamped event.eventId table])
    | _ => (s, [])
  | .skipEvent replica =>
    match s.stage replica with
    -- an event whose delivery raised keeps its row as it is, for a later drain
    | some (.batch now (_ :: rows)) => (s.to replica (.batch now rows), [])
    | some (.delivering now _ rows) => (s.to replica (.batch now rows), [])
    | _ => (s, [])
  | .unlock replica =>
    match s.stage replica with
    | some (.batch _ []) => ({ s with drain := none }, [])
    | _ => (s, [])
  | .crash replica =>
    match s.stage replica with
    | some _ => ({ s with drain := none }, [])
    | none => (s, [])

/-- The outbox and its drains, from an empty database. -/
def busMachine : Machine EventBus EventAct BusEvent where
  start := ⟨[], [], [], none⟩
  step := busStep scalarEq grantTenant

end Steps

end Meho.Events
