import Meho.Auth.Operator
import Meho.Lib.History

/- The life of an `agent_run` row, and the transactions that move it
(operations/agent_run.py, agent/reaper.py).

A transaction loads the row, calls one function of the lifecycle on what it loaded, and
commits: the flush writes the columns that the call changed, by primary key, over
whatever the row holds by then. The reaper alone locks the row when it loads it, so
until it commits no other write gets through. Between the load and the commit of one
transaction any other may load and commit.

Correspondence: `TERMINAL_STATUSES` ↔ `AgentRunStatus.terminal`, the query of
`_run_one_tick` ↔ `expiredLease`; what is not listed keeps its name. The audit
row of the reaper and the add-on's step event are left out. -/
namespace Meho.Agent
open Meho.Lib

inductive AgentRunStatus where
  | pending
  | running
  | awaitingApproval
  | succeeded
  | failed
  | cancelled
  deriving DecidableEq, Repr

def AgentRunStatus.value : AgentRunStatus → String
  | .pending => "pending"
  | .running => "running"
  | .awaitingApproval => "awaiting_approval"
  | .succeeded => "succeeded"
  | .failed => "failed"
  | .cancelled => "cancelled"

/-- `status in TERMINAL_STATUSES`. -/
def AgentRunStatus.terminal : AgentRunStatus → Bool
  | .succeeded => true
  | .failed => true
  | .cancelled => true
  | _ => false

def allowedTransitions : AgentRunStatus → List AgentRunStatus
  | .pending => [.running, .cancelled]
  | .running => [.awaitingApproval, .succeeded, .failed, .cancelled]
  | .awaitingApproval => [.running, .failed, .cancelled]
  | .succeeded => []
  | .failed => []
  | .cancelled => []

/-- What the reaper does with a run whose lease has expired. -/
inductive InFlightPolicy where
  | failIntoAudit
  | resume
  deriving DecidableEq, Repr

/-- The token totals of one run. -/
structure TokenUsage where
  inputTokens : Nat
  outputTokens : Nat
  cacheReadTokens : Nat
  cacheWriteTokens : Nat
  deriving DecidableEq, Repr

/-- One row of `agent_run`. The cost is in millionths, the scale of its column. -/
structure AgentRun where
  id : Nat
  tenantId : Nat
  agentDefinitionId : Option Nat
  identitySub : String
  modelTier : String
  workRef : Option String
  inFlightPolicy : InFlightPolicy
  provider : Option String
  model : Option String
  status : AgentRunStatus
  turns : Nat
  cost : Option Int
  inputTokens : Option Nat
  outputTokens : Option Nat
  cacheReadTokens : Option Nat
  cacheWriteTokens : Option Nat
  output : Option Dict
  error : Option String
  startedAt : Option Time
  endedAt : Option Time
  leaseOwner : Option String
  leaseExpiresAt : Option Time
  deriving Repr

/-- `create_run`: a fresh row, pending. -/
def createRun (id tenantId : Nat) (identitySub modelTier : String) (agentDefinitionId : Option Nat)
    (workRef : Option String) (inFlightPolicy : InFlightPolicy) : AgentRun :=
  { id, tenantId, agentDefinitionId, identitySub, modelTier, workRef, inFlightPolicy
    provider := none, model := none, status := .pending, turns := 0, cost := none
    inputTokens := none, outputTokens := none, cacheReadTokens := none, cacheWriteTokens := none
    output := none, error := none, startedAt := none, endedAt := none
    leaseOwner := none, leaseExpiresAt := none }

/-- The `agent_run.completed` event in the outbox. -/
structure RunCompleted where
  runId : Nat
  tenantId : Nat
  status : AgentRunStatus
  agentDefinitionId : Option Nat
  workRef : Option String
  deriving DecidableEq, Repr

inductive AgentRunError where
  | illegalTransition (fromStatus toStatus : AgentRunStatus)
  | unauthorizedCancellation (role : TenantRole)
  deriving DecidableEq, Repr

/-! ## The functions of the lifecycle -/

/-- What a call leaves in its session: the row, and the events it published. -/
abbrev Called := Except AgentRunError (AgentRun × List RunCompleted)

def AgentRun.completedAs (row : AgentRun) (status : AgentRunStatus) : RunCompleted :=
  ⟨row.id, row.tenantId, status, row.agentDefinitionId, row.workRef⟩

/-- `started_at` is stamped on the first entry into `running` only: a resume keeps it. -/
def AgentRun.stampStarted (now : Time) (toStatus : AgentRunStatus) (row : AgentRun) : AgentRun :=
  if toStatus = .running ∧ row.startedAt = none then { row with startedAt := some now } else row

/-- A terminal status stamps `ended_at` and clears the lease. -/
def AgentRun.stampEnded (now : Time) (toStatus : AgentRunStatus) (row : AgentRun) : AgentRun :=
  if toStatus.terminal then
    { row with endedAt := some now, leaseOwner := none, leaseExpiresAt := none }
  else row

/-- `transition`: the one place where `status` is written. -/
def transition (now : Time) (row : AgentRun) (toStatus : AgentRunStatus) : Called :=
  if toStatus ∉ allowedTransitions row.status then
    .error (.illegalTransition row.status toStatus)
  else
    let row := (row.stampStarted now toStatus).stampEnded now toStatus
    .ok ({ row with status := toStatus }, if toStatus.terminal then [row.completedAs toStatus] else [])

def claimLease (row : AgentRun) (owner : String) (expiresAt : Time) : AgentRun :=
  { row with leaseOwner := some owner, leaseExpiresAt := some expiresAt }

def releaseLease (row : AgentRun) : AgentRun :=
  { row with leaseOwner := none, leaseExpiresAt := none }

/-- `start_run`, and `claim_lease` in the same transaction where the caller claims one. -/
def startRun (now : Time) (row : AgentRun) (provider model : String)
    (lease : Option (String × Time)) : Called :=
  let row := { row with provider := some provider, model := some model }
  (transition now row .running).map fun (row, events) =>
    (match lease with
      | some (owner, expiresAt) => claimLease row owner expiresAt
      | none => row, events)

def succeedRun (now : Time) (row : AgentRun) (output : Dict) (cost : Option Int)
    (turns : Option Nat) (usage : Option TokenUsage) : Called :=
  let row := { row with output := some output, cost := cost.orElse fun _ => row.cost
                        turns := turns.getD row.turns }
  let row := match usage with
    | some u => { row with inputTokens := some u.inputTokens, outputTokens := some u.outputTokens
                           cacheReadTokens := some u.cacheReadTokens
                           cacheWriteTokens := some u.cacheWriteTokens }
    | none => row
  transition now row .succeeded

def failRun (now : Time) (row : AgentRun) (error : String) : Called :=
  transition now { row with error := some error } .failed

/-- The role that may cancel: `operator` or above. -/
def mayCancel (role : TenantRole) : Bool := decide (TenantRole.operator.order ≤ role.order)

def cancelRun (now : Time) (row : AgentRun) (role : TenantRole) : Called :=
  if !mayCancel role then .error (.unauthorizedCancellation role)
  else transition now row .cancelled

def reaperInterruptionReason : String :=
  "interrupted: lease expired -- worker died mid-flight (reaped by agent_run_reaper)"

def reapOneRow (now : Time) (row : AgentRun) : Called :=
  match row.inFlightPolicy with
  | .resume => .ok (releaseLease row, [])
  | .failIntoAudit => transition now { row with error := some reaperInterruptionReason } .failed

/-! ## The statements -/

/-- What a flush leaves in a column: the call's value where the call changed it. -/
def changed {α : Type} [BEq α] (loaded new current : α) : α := if new == loaded then current else new

/-- `UPDATE agent_run SET <the changed columns> WHERE id = ..`. -/
def flush (loaded new current : AgentRun) : AgentRun :=
  { current with
    provider := changed loaded.provider new.provider current.provider
    model := changed loaded.model new.model current.model
    status := changed loaded.status new.status current.status
    turns := changed loaded.turns new.turns current.turns
    cost := changed loaded.cost new.cost current.cost
    inputTokens := changed loaded.inputTokens new.inputTokens current.inputTokens
    outputTokens := changed loaded.outputTokens new.outputTokens current.outputTokens
    cacheReadTokens := changed loaded.cacheReadTokens new.cacheReadTokens current.cacheReadTokens
    cacheWriteTokens := changed loaded.cacheWriteTokens new.cacheWriteTokens current.cacheWriteTokens
    output := changed loaded.output new.output current.output
    error := changed loaded.error new.error current.error
    startedAt := changed loaded.startedAt new.startedAt current.startedAt
    endedAt := changed loaded.endedAt new.endedAt current.endedAt
    leaseOwner := changed loaded.leaseOwner new.leaseOwner current.leaseOwner
    leaseExpiresAt := changed loaded.leaseExpiresAt new.leaseExpiresAt current.leaseExpiresAt }

/-- The rows a tick of the reaper asks for: running, with a lease that has expired. -/
def expiredLease (now : Time) (row : AgentRun) : Bool :=
  row.status = .running && row.leaseExpiresAt.any (· < now)

/-- `heartbeat`: extends the lease of a running row that this owner still holds. -/
def heartbeat (owner : String) (expiresAt : Time) (row : AgentRun) : AgentRun :=
  if row.leaseOwner = some owner ∧ row.status = .running then
    { row with leaseExpiresAt := some expiresAt } else row

/-! ## Transactions -/

/-- What a transaction does with the row that it loaded. -/
inductive Call where
  | start (provider model : String) (lease : Option (String × Time))
  | transition (toStatus : AgentRunStatus)
  | succeed (output : Dict) (cost : Option Int) (turns : Option Nat) (usage : Option TokenUsage)
  | fail (error : String)
  | cancel (role : TenantRole)
  | reap

def Call.apply (now : Time) (row : AgentRun) : Call → Called
  | .start provider model lease => startRun now row provider model lease
  | .transition toStatus => Agent.transition now row toStatus
  | .succeed output cost turns usage => succeedRun now row output cost turns usage
  | .fail error => failRun now row error
  | .cancel role => cancelRun now row role
  | .reap => reapOneRow now row

/-- The committed row, the open transactions with the row as each loaded it, and the
transaction that holds the row's lock from its load on. -/
structure RunRow where
  row : AgentRun
  opened : Nat → Option AgentRun
  holder : Option Nat

/-- A statement of a transaction or of the reaper, or a heartbeat of the owner. -/
inductive RunAct where
  /-- A transaction loads the row, without a lock. -/
  | load (tx : Nat)
  /-- A tick of the reaper selects the row `FOR UPDATE SKIP LOCKED`. -/
  | select (tx : Nat) (now : Time)
  | commit (tx : Nat) (now : Time) (call : Call)
  | abort (tx : Nat)
  | heartbeat (owner : String) (expiresAt : Time)

/-- What is committed: a status that a transaction wrote, an event in the outbox. -/
inductive RunEvent where
  | status (s : AgentRunStatus)
  | completed (event : RunCompleted)
  deriving DecidableEq, Repr

/-- The transaction is over. -/
def RunRow.close (s : RunRow) (tx : Nat) : RunRow :=
  { s with opened := fun q => if q = tx then none else s.opened q
           holder := if s.holder = some tx then none else s.holder }

def RunRow.put (s : RunRow) (tx : Nat) (row : AgentRun) : RunRow :=
  { s with opened := fun q => if q = tx then some row else s.opened q }

/-- The lock is free, or this transaction's own. -/
def RunRow.passes (s : RunRow) (tx : Nat) : Bool := s.holder.all (· = tx)

/-- The reaper calls on the rows it locked, and nobody else does. -/
def Call.fits (call : Call) (locked : Bool) : Bool :=
  match call with
  | .reap => locked
  | _ => !locked

/-- One step of the row's history. A commit behind another transaction's lock waits, and a
call that raises is rolled back. -/
def runStep (s : RunRow) : RunAct → RunRow × List RunEvent
  | .load tx => (if s.opened tx = none then s.put tx s.row else s, [])
  | .select tx now =>
    (if s.opened tx = none ∧ s.holder = none ∧ expiredLease now s.row then
      { s.put tx s.row with holder := some tx } else s, [])
  | .commit tx now call =>
    match s.opened tx with
    | none => (s, [])
    | some loaded =>
      if !call.fits (s.holder = some tx) || !s.passes tx then (s, [])
      else match call.apply now loaded with
        | .error _ => (s.close tx, [])
        | .ok (new, published) =>
          ({ s.close tx with row := flush loaded new s.row },
            (if new.status = loaded.status then [] else [.status new.status]) ++
              published.map .completed)
  | .abort tx => (s.close tx, [])
  | .heartbeat owner expiresAt =>
    (if s.holder = none then { s with row := heartbeat owner expiresAt s.row } else s, [])

/-- The history of one row from its creation. -/
def runMachine (row : AgentRun) : Machine RunRow RunAct RunEvent where
  start := ⟨row, fun _ => none, none⟩
  step := runStep

end Meho.Agent
