import Meho.Approval.Model
import Meho.Lib.History
import Meho.Lib.Latch

/- The command queue of the remote-execution gateway (gateway/queue.py,
operations/gateway_commands.py, api/v1/gateway.py).

A command waits for one runner, is delivered to it, and gets one result. Polls
and result reports are processes here (`Proc`), with one statement to a step:

  polling     between two attempts of a long poll. The poll read the runner's
              `revoked` flag once, when it started. A step is the SELECT of the
              oldest claimable command and the check of its params.
  claiming    a command is selected; the step is the conditional UPDATE to
              `delivered`, and with it the runner has the command.
  accepting   `accept_command_result` has read the row. The step takes the
              consumption latch, and with the row's lock the rest of the
              transaction.
  consuming   `consume_command` in a transaction of its own.
  recording   `record_result` in a transaction of its own.

Between the steps anything else happens, and a process may be gone at any
point. A claim on PostgreSQL skips rows that other claims have locked, so a
claim's step names the rows it skips. The params column may be written from
outside the queue: the claim's check is for that.

`queue_safety` is what holds of every run. A revoked runner gets no remote
write as long as no claim commits under a flag that is no longer the runner's;
`stale_poll_delivers_write` is a run where one does.

Correspondence: `_pending_claim_stmt` ↔ `claimable` and `pendingClaim`,
`claim_next_command` ↔ `claimStep` and `deliver`, `consume_command` ↔
`consume`, `record_result` ↔ `Act.record` and `recordResult`,
`accept_command_result` ↔ `acceptStep`, `assert_runner_scope` ↔
`World.runner?`, `poll_next_command` ↔ the steps of `Proc.polling` and
`Proc.claiming`; what is not listed keeps its name. -/
namespace Meho.Gateway
open Meho.Lib
open Meho.Approval (Params)

/-! ## Commands -/

inductive CommandStatus where
  | pending
  | delivered
  | succeeded
  | failed
  deriving DecidableEq, Repr

def CommandStatus.terminal : CommandStatus → Bool
  | .succeeded | .failed => true
  | _ => false

/-- One row of `gateway_command`. -/
structure GatewayCommand where
  tenantId : Nat
  runnerId : String
  opId : String
  params : Params
  targetDescriptor : Option Dict
  status : CommandStatus
  result : Option Dict
  error : Option String
  enqueuedBySub : String
  enqueuedAt : Time
  deliveredAt : Option Time
  completedAt : Option Time
  paramsHash : String
  expiresAt : Time
  consumedAt : Option Time
  mintAuditId : Option Nat
  signature : Option String
  safetyLevel : SafetyLevel
  unreportedAlarmAt : Option Time

/-- The levels of the remote-write tier. -/
def remoteWriteSafetyLevels : List SafetyLevel := [.caution]

def isRemoteWrite (level : SafetyLevel) : Bool := remoteWriteSafetyLevels.contains level

def gatewayCommandDefaultTtl : Time := seconds 300

/-- A caller may shorten a command's life, never extend it. -/
def boundCapabilityExpiry (requested : Option Time) (now : Time) : Time :=
  match requested with
  | none => now + gatewayCommandDefaultTtl
  | some requested => min requested (now + gatewayCommandDefaultTtl)

/-- The arguments of `enqueue_command`. -/
structure EnqueueArgs where
  tenantId : Nat
  runnerId : String
  opId : String
  params : Params
  enqueuedBySub : String
  targetDescriptor : Option Dict
  paramsHash : Option String
  expiresAt : Option Time
  mintAuditId : Option Nat
  safetyLevel : SafetyLevel

variable (digest : Params → String)

/-- The new row, always pending. -/
def enqueueCommand (a : EnqueueArgs) (now : Time) : GatewayCommand where
  tenantId := a.tenantId
  runnerId := a.runnerId
  opId := a.opId
  params := a.params
  targetDescriptor := a.targetDescriptor
  status := .pending
  result := none
  error := none
  enqueuedBySub := a.enqueuedBySub
  enqueuedAt := now
  deliveredAt := none
  completedAt := none
  paramsHash := a.paramsHash.getD (digest a.params)
  expiresAt := boundCapabilityExpiry a.expiresAt now
  consumedAt := none
  mintAuditId := a.mintAuditId
  signature := none
  safetyLevel := a.safetyLevel
  unreportedAlarmAt := none

/-! ## Claims -/

/-- A command that a poll of the runner may claim. A revoked runner gets no remote write. -/
def claimable (tenantId : Nat) (runnerId : String) (now : Time) (runnerRevoked : Bool)
    (c : GatewayCommand) : Bool :=
  c.tenantId = tenantId && c.runnerId = runnerId && c.status = .pending && now < c.expiresAt &&
    c.consumedAt.isNone && !(runnerRevoked && isRemoteWrite c.safetyLevel)

/-- The oldest claimable command that no other claim has locked. -/
def pendingClaim (tenantId : Nat) (runnerId : String) (now : Time) (runnerRevoked : Bool)
    (skipped : List Nat) (commands : List GatewayCommand) : Option Nat :=
  ((List.range commands.length).filter fun id =>
      !skipped.contains id &&
        (commands[id]?.map (claimable tenantId runnerId now runnerRevoked)).getD false).minOn?
    fun id => (commands[id]?.map (·.enqueuedAt)).getD 0

/-- The stored params are still the ones the command was bound to. -/
def paramsHashIntact (c : GatewayCommand) : Bool := digest c.params = c.paramsHash

/-- The conditional UPDATE of a claim. -/
def deliver (id : Nat) (now : Time) (commands : List GatewayCommand) :
    Option (List GatewayCommand) :=
  match commands[id]? with
  | some c =>
    if c.status = .pending then
      some (commands.set id { c with status := .delivered, deliveredAt := some now })
    else none
  | none => none

/-! ## Results -/

/-- A result report. -/
structure Report where
  tenantId : Nat
  runnerId : String
  commandId : Nat
  succeeded : Bool
  result : Option Dict
  error : Option String

def Report.outcome (r : Report) : CommandStatus := if r.succeeded then .succeeded else .failed

/-- The row, when it is in the runner's own queue. -/
def Report.load (r : Report) (commands : List GatewayCommand) : Option GatewayCommand :=
  match commands[r.commandId]? with
  | some c => if c.tenantId = r.tenantId ∧ c.runnerId = r.runnerId then some c else none
  | none => none

/-- The conditional UPDATE of the consumption latch. -/
def consume (id : Nat) (now : Time) (commands : List GatewayCommand) :
    Option (List GatewayCommand) :=
  match commands[id]? with
  | some c =>
    if c.consumedAt.isNone ∧ c.status = .delivered then
      some (commands.set id { c with consumedAt := some now })
    else none
  | none => none

/-- The conditional UPDATE of a result. -/
def recordResult (r : Report) (now : Time) (commands : List GatewayCommand) :
    Option (List GatewayCommand) :=
  match commands[r.commandId]? with
  | some c =>
    if c.status = .delivered then
      some (commands.set r.commandId
        { c with
          status := r.outcome, result := r.result, error := r.error, completedAt := some now })
    else none
  | none => none

/-! ## The machine -/

/-- What the queue reads of a runner. Name and tenant are unique. -/
structure RunnerPrincipal where
  tenantId : Nat
  name : String
  revoked : Bool

/-- A call on the queue, by the statement it is before. -/
inductive Proc where
  | polling (tenantId : Nat) (runnerId : String) (runnerRevoked : Bool)
  | claiming (tenantId : Nat) (runnerId : String) (runnerRevoked : Bool) (id : Nat)
      (row : GatewayCommand) (now : Time)
  | accepting (r : Report) (loaded : GatewayCommand)
  | consuming (r : Report)
  | recording (r : Report)
  | done

/-- The command rows, the runners and the calls under way. -/
structure World where
  commands : List GatewayCommand
  runners : List RunnerPrincipal
  procs : List Proc

/-- The runner a token of this name may act for. -/
def World.runner? (w : World) (tenantId : Nat) (name : String) : Option RunnerPrincipal :=
  w.runners.find? fun r => r.tenantId = tenantId && r.name = name

def World.revoked (w : World) (tenantId : Nat) (name : String) : Bool :=
  ((w.runner? tenantId name).map (·.revoked)).getD false

/-- A change beside the calls, a new call or the next statement of one. -/
inductive Act where
  | enqueue (a : EnqueueArgs) (now : Time)
  | register (tenantId : Nat) (name : String)
  | revoke (tenantId : Nat) (name : String)
  | overwriteParams (id : Nat) (params : Params)
  | poll (tenantId : Nat) (runnerId : String)
  | accept (r : Report)
  | consume (r : Report)
  | record (r : Report)
  | advance (pid : Nat) (now : Time) (skipped : List Nat)
  | crash (pid : Nat)

/-- What can be seen of the queue. A delivery names the runner that has the command now, the row
as it was handed out, the time it is stamped with, and whether the runner is revoked. -/
inductive QueueEvent where
  | delivered (tenantId : Nat) (runnerId : String) (id : Nat) (row : GatewayCommand) (now : Time)
      (runnerRevoked : Bool)
  | consumed (id : Nat)
  | recorded (id : Nat) (outcome : CommandStatus)

/-- The command that is delivered. -/
def QueueEvent.delivers : QueueEvent → Option Nat
  | .delivered _ _ id _ _ _ => some id
  | _ => none

/-- The command whose latch is taken. -/
def QueueEvent.consumes : QueueEvent → Option Nat
  | .consumed id => some id
  | _ => none

/-- The command whose result is accepted. -/
def QueueEvent.records : QueueEvent → Option Nat
  | .recorded id _ => some id
  | _ => none

/-- What one step of a process does. -/
structure StepResult where
  commands : List GatewayCommand
  proc : Proc
  events : List QueueEvent

/-- One attempt of a poll: the SELECT, and the check of the params. -/
def claimStep (now : Time) (skipped : List Nat) (commands : List GatewayCommand) (tenantId : Nat)
    (runnerId : String) (runnerRevoked : Bool) : Proc :=
  match pendingClaim tenantId runnerId now runnerRevoked skipped commands with
  | none => .polling tenantId runnerId runnerRevoked
  | some id =>
    match commands[id]? with
    | none => .polling tenantId runnerId runnerRevoked
    | some row =>
      if paramsHashIntact digest row then .claiming tenantId runnerId runnerRevoked id row now
      else .polling tenantId runnerId runnerRevoked

/-- The rest of an accepted result's transaction. The status is checked on the row as it was
loaded; a failure rolls the latch back. -/
def acceptStep (now : Time) (commands : List GatewayCommand) (r : Report)
    (loaded : GatewayCommand) : StepResult :=
  match consume r.commandId now commands with
  | none => ⟨commands, .done, []⟩
  | some commands₁ =>
    if loaded.status = .delivered then
      match recordResult r now commands₁ with
      | none => ⟨commands, .done, []⟩
      | some commands₂ =>
        ⟨commands₂, .done, [.consumed r.commandId, .recorded r.commandId r.outcome]⟩
    else ⟨commands, .done, []⟩

def procStep (now : Time) (skipped : List Nat) (w : World) : Proc → StepResult
  | .polling tenantId runnerId runnerRevoked =>
    ⟨w.commands, claimStep digest now skipped w.commands tenantId runnerId runnerRevoked, []⟩
  | .claiming tenantId runnerId runnerRevoked id row claimedAt =>
    match deliver id claimedAt w.commands with
    | some commands =>
      ⟨commands, .done,
        [.delivered tenantId runnerId id row claimedAt (w.revoked tenantId runnerId)]⟩
    | none => ⟨w.commands, .polling tenantId runnerId runnerRevoked, []⟩
  | .accepting r loaded => acceptStep now w.commands r loaded
  | .consuming r =>
    match consume r.commandId now w.commands with
    | some commands => ⟨commands, .done, [.consumed r.commandId]⟩
    | none => ⟨w.commands, .done, []⟩
  | .recording r =>
    match recordResult r now w.commands with
    | some commands => ⟨commands, .done, [.recorded r.commandId r.outcome]⟩
    | none => ⟨w.commands, .done, []⟩
  | .done => ⟨w.commands, .done, []⟩

def World.spawn (w : World) (p : Proc) : World := { w with procs := w.procs ++ [p] }

/-- One action. A report on a row outside the runner's queue is answered at once. -/
def worldStep (w : World) : Act → World × List QueueEvent
  | .enqueue a now => ({ w with commands := w.commands ++ [enqueueCommand digest a now] }, [])
  | .register tenantId name =>
    match w.runner? tenantId name with
    | some _ => (w, [])
    | none => ({ w with runners := w.runners ++ [⟨tenantId, name, false⟩] }, [])
  | .revoke tenantId name =>
    ({ w with runners := w.runners.map fun r =>
        if r.tenantId = tenantId ∧ r.name = name then { r with revoked := true } else r }, [])
  | .overwriteParams id params =>
    match w.commands[id]? with
    | some c => ({ w with commands := w.commands.set id { c with params := params } }, [])
    | none => (w, [])
  | .poll tenantId runnerId =>
    match w.runner? tenantId runnerId with
    -- the revoked flag is read once, before the poll waits
    | some runner => (w.spawn (.polling tenantId runnerId runner.revoked), [])
    | none => (w, [])
  | .accept r =>
    match r.load w.commands with
    | some row => (w.spawn (.accepting r row), [])
    | none => (w, [])
  | .consume r =>
    match r.load w.commands with
    | some _ => (w.spawn (.consuming r), [])
    | none => (w, [])
  | .record r =>
    match r.load w.commands with
    -- a result is recorded for a delivered command only
    | some row => if row.status = .delivered then (w.spawn (.recording r), []) else (w, [])
    | none => (w, [])
  | .advance pid now skipped =>
    match w.procs[pid]? with
    | some p =>
      let out := procStep digest now skipped w p
      ({ w with commands := out.commands, procs := w.procs.set pid out.proc }, out.events)
    | none => (w, [])
  | .crash pid => ({ w with procs := w.procs.set pid .done }, [])

/-- The queue, its runners and everybody who works on it. -/
def commandQueue : Machine World Act QueueEvent := ⟨⟨[], [], []⟩, worldStep digest⟩

/-! ## What a step writes -/

/-- The parts of a row that the queue never writes. -/
structure SameCommand (c c' : GatewayCommand) : Prop where
  tenantId : c'.tenantId = c.tenantId
  runnerId : c'.runnerId = c.runnerId
  expiresAt : c'.expiresAt = c.expiresAt
  paramsHash : c'.paramsHash = c.paramsHash
  safetyLevel : c'.safetyLevel = c.safetyLevel

theorem SameCommand.refl (c : GatewayCommand) : SameCommand c c := ⟨rfl, rfl, rfl, rfl, rfl⟩

variable {c : GatewayCommand}

theorem SameCommand.trans {a b : GatewayCommand} (h : SameCommand a b) (h' : SameCommand b c) :
    SameCommand a c :=
  ⟨h'.tenantId.trans h.tenantId, h'.runnerId.trans h.runnerId, h'.expiresAt.trans h.expiresAt,
    h'.paramsHash.trans h.paramsHash, h'.safetyLevel.trans h.safetyLevel⟩

/-- What a write does to one row, and what it reports. -/
inductive RowStep (id : Nat) : GatewayCommand → GatewayCommand → List QueueEvent → Prop where
  | overwrite (c : GatewayCommand) (params : Params) : RowStep id c { c with params := params } []
  | deliver (c : GatewayCommand) (hpending : c.status = .pending) {tenantId : Nat}
      {runnerId : String} {row : GatewayCommand} {now : Time} {revoked : Bool} :
    RowStep id c { c with status := .delivered, deliveredAt := some now }
      [.delivered tenantId runnerId id row now revoked]
  | consume (c : GatewayCommand) (hdelivered : c.status = .delivered)
      (hopen : c.consumedAt = none) (now : Time) :
    RowStep id c { c with consumedAt := some now } [.consumed id]
  | record (c : GatewayCommand) (hdelivered : c.status = .delivered) (r : Report) (now : Time) :
    RowStep id c
      { c with status := r.outcome, result := r.result, error := r.error, completedAt := some now }
      [.recorded id r.outcome]

/-- What a step does to the table: nothing, a new pending row, or a write to one row. The result
of a report is two writes in one transaction. -/
inductive TableStep : List GatewayCommand → List GatewayCommand → List QueueEvent → Prop where
  | keep (commands : List GatewayCommand) : TableStep commands commands []
  | enqueue (commands : List GatewayCommand) (c : GatewayCommand) (hpending : c.status = .pending)
      (hopen : c.consumedAt = none) : TableStep commands (commands ++ [c]) []
  | write {commands : List GatewayCommand} {id : Nat} {c c' : GatewayCommand}
      {es : List QueueEvent} (hc : commands[id]? = some c) (h : RowStep id c c' es) :
    TableStep commands (commands.set id c') es
  | andThen {commands commands₁ commands₂ : List GatewayCommand} {es es₁ : List QueueEvent}
      (h : TableStep commands commands₁ es) (h₁ : TableStep commands₁ commands₂ es₁) :
    TableStep commands commands₂ (es ++ es₁)

theorem outcome_terminal (r : Report) : r.outcome.terminal = true := by
  unfold Report.outcome
  split <;> rfl

variable {id : Nat} {now : Time} {commands commands' : List GatewayCommand}

theorem deliver_step (h : deliver id now commands = some commands') (tenantId : Nat)
    (runnerId : String) (row : GatewayCommand) (revoked : Bool) :
    TableStep commands commands' [.delivered tenantId runnerId id row now revoked] := by
  unfold deliver at h
  split at h
  · rename_i c hc
    split at h
    · rename_i hpending
      cases h
      exact .write hc (.deliver c hpending)
    · cases h
  · cases h

theorem consume_step (h : consume id now commands = some commands') :
    TableStep commands commands' [.consumed id] := by
  unfold consume at h
  split at h
  · rename_i c hc
    split at h
    · rename_i hopen
      cases h
      exact .write hc (.consume c hopen.2 (by simpa using hopen.1) now)
    · cases h
  · cases h

theorem recordResult_step {r : Report} (h : recordResult r now commands = some commands') :
    TableStep commands commands' [.recorded r.commandId r.outcome] := by
  unfold recordResult at h
  split at h
  · rename_i c hc
    split at h
    · rename_i hdelivered
      cases h
      exact .write hc (.record c hdelivered r now)
    · cases h
  · cases h

theorem acceptStep_table (now : Time) (commands : List GatewayCommand) (r : Report)
    (loaded : GatewayCommand) :
    TableStep commands (acceptStep now commands r loaded).commands
      (acceptStep now commands r loaded).events := by
  unfold acceptStep
  split
  · exact .keep commands
  · rename_i hconsume
    split
    · split
      · exact .keep commands
      · rename_i hrecord
        exact .andThen (consume_step hconsume) (recordResult_step hrecord)
    · exact .keep commands

theorem procStep_table (now : Time) (skipped : List Nat) (w : World) (p : Proc) :
    TableStep w.commands (procStep digest now skipped w p).commands
      (procStep digest now skipped w p).events := by
  cases p with
  | polling | done => exact .keep w.commands
  | claiming tenantId runnerId revoked id row claimedAt =>
    unfold procStep
    simp only
    split
    · rename_i hdeliver
      exact deliver_step hdeliver _ _ _ _
    · exact .keep w.commands
  | accepting r loaded => exact acceptStep_table now w.commands r loaded
  | consuming r =>
    unfold procStep
    simp only
    split
    · rename_i hconsume
      exact consume_step hconsume
    · exact .keep w.commands
  | recording r =>
    unfold procStep
    simp only
    split
    · rename_i hrecord
      exact recordResult_step hrecord
    · exact .keep w.commands

/-! ### What no step of the queue touches -/

variable {c' : GatewayCommand}

theorem map_set_keep {β : Type} {f : GatewayCommand → β} (hc : commands[id]? = some c)
    (hf : f c' = f c) : (commands.set id c').map f = commands.map f := by
  rw [List.map_set, hf]
  refine List.ext_getElem? fun k => ?_
  by_cases hk : id = k
  · subst hk
    have hlt : id < (commands.map f).length := by
      rw [List.length_map]
      exact (List.getElem?_eq_some_iff.mp hc).1
    rw [List.getElem?_set_self hlt, List.getElem?_map, hc]
    rfl
  · rw [List.getElem?_set_ne hk]

theorem deliver_alarm (h : deliver id now commands = some commands') :
    commands'.map (·.unreportedAlarmAt) = commands.map (·.unreportedAlarmAt) := by
  unfold deliver at h
  split at h
  · rename_i c hc
    split at h
    · cases h
      exact map_set_keep hc rfl
    · cases h
  · cases h

theorem consume_alarm (h : consume id now commands = some commands') :
    commands'.map (·.unreportedAlarmAt) = commands.map (·.unreportedAlarmAt) := by
  unfold consume at h
  split at h
  · rename_i c hc
    split at h
    · cases h
      exact map_set_keep hc rfl
    · cases h
  · cases h

theorem recordResult_alarm {r : Report} (h : recordResult r now commands = some commands') :
    commands'.map (·.unreportedAlarmAt) = commands.map (·.unreportedAlarmAt) := by
  unfold recordResult at h
  split at h
  · rename_i c hc
    split at h
    · cases h
      exact map_set_keep hc rfl
    · cases h
  · cases h

theorem procStep_alarm (now : Time) (skipped : List Nat) (w : World) (p : Proc) :
    (procStep digest now skipped w p).commands.map (·.unreportedAlarmAt) =
      w.commands.map (·.unreportedAlarmAt) := by
  cases p with
  | polling => rfl
  | claiming tenantId runnerId revoked id row claimedAt =>
    simp only [procStep]
    split
    · rename_i hdeliver
      exact deliver_alarm hdeliver
    · rfl
  | accepting r loaded =>
    simp only [procStep, acceptStep]
    split
    · rfl
    · rename_i hconsume
      split
      · split
        · rfl
        · rename_i hrecord
          exact (recordResult_alarm hrecord).trans (consume_alarm hconsume)
      · rfl
  | consuming r =>
    simp only [procStep]
    split
    · rename_i hconsume
      exact consume_alarm hconsume
    · rfl
  | recording r =>
    simp only [procStep]
    split
    · rename_i hrecord
      exact recordResult_alarm hrecord
    · rfl
  | done => rfl

section
variable (w : World) {act : Act} (h : ∀ args now, act ≠ .enqueue args now)
include w h

/-- The alarm column is written elsewhere, and only an enqueue adds a row. -/
theorem worldStep_alarm :
    (worldStep digest w act).1.commands.map (·.unreportedAlarmAt) =
      w.commands.map (·.unreportedAlarmAt) := by
  cases act with
  | enqueue args now => exact absurd rfl (h args now)
  | advance pid now skipped =>
    simp only [worldStep]
    split
    · exact procStep_alarm digest now skipped w _
    · rfl
  | register tenantId name | poll tenantId runnerId | accept r | consume r =>
      simp only [worldStep]; split <;> rfl
  | revoke tenantId name => rfl
  | overwriteParams id params =>
    simp only [worldStep]
    split
    · rename_i c hc
      exact map_set_keep hc rfl
    · rfl
  | record r =>
    simp only [worldStep]
    split
    · split <;> rfl
    · rfl
  | crash pid => rfl

theorem worldStep_length : (worldStep digest w act).1.commands.length = w.commands.length := by
  have hcolumn := congrArg List.length (worldStep_alarm digest w h)
  simpa using hcolumn

end

/-- The process has selected a command. -/
def Proc.claims : Proc → Bool
  | .claiming .. => true
  | _ => false

/-- What an action does that moves no process: it writes at most one row, reports nothing and
starts no process in the middle of a claim. -/
structure QuietStep (w w' : World) (es : List QueueEvent) : Prop where
  table : TableStep w.commands w'.commands []
  silent : es = []
  procs : ∀ p ∈ w'.procs, p ∈ w.procs ∨ p.claims = false

theorem QuietStep.keep (w : World) : QuietStep w w [] := ⟨.keep w.commands, rfl, fun _ => .inl⟩

variable {w : World}

theorem QuietStep.table_only {w' : World} (htable : TableStep w.commands w'.commands [])
    (hprocs : w'.procs = w.procs) : QuietStep w w' [] :=
  ⟨htable, rfl, fun _ hp => .inl (hprocs ▸ hp)⟩

variable {p : Proc}

theorem QuietStep.spawn (hp : p.claims = false) : QuietStep w (w.spawn p) [] := by
  refine ⟨.keep w.commands, rfl, fun q hq => ?_⟩
  rcases List.mem_append.mp hq with hold | hnew
  · exact .inl hold
  · rw [List.mem_singleton.mp hnew]
    exact .inr hp

theorem worldStep_cases (w : World) (a : Act) :
    (∃ pid now skipped p, a = .advance pid now skipped ∧ w.procs[pid]? = some p ∧
      worldStep digest w a =
        ({ w with
            commands := (procStep digest now skipped w p).commands
            procs := w.procs.set pid (procStep digest now skipped w p).proc },
          (procStep digest now skipped w p).events)) ∨
      QuietStep w (worldStep digest w a).1 (worldStep digest w a).2 := by
  cases a with
  | enqueue a now => exact .inr (.table_only (.enqueue w.commands _ rfl rfl) rfl)
  | register tenantId name =>
    refine .inr ?_
    unfold worldStep
    simp only
    split
    · exact .keep w
    · exact .table_only (.keep w.commands) rfl
  | revoke tenantId name => exact .inr (.table_only (.keep w.commands) rfl)
  | overwriteParams id params =>
    refine .inr ?_
    unfold worldStep
    simp only
    split
    · rename_i c hc
      exact .table_only (.write hc (.overwrite c params)) rfl
    · exact .keep w
  | poll tenantId runnerId | accept r | consume r =>
    refine .inr ?_
    unfold worldStep
    simp only
    split
    · exact .spawn rfl
    · exact .keep w
  | record r =>
    refine .inr ?_
    unfold worldStep
    simp only
    split
    · split
      · exact .spawn rfl
      · exact .keep w
    · exact .keep w
  | advance pid now skipped =>
    cases hp : w.procs[pid]? with
    | some p => exact .inl ⟨pid, now, skipped, p, rfl, hp, by simp [worldStep, hp]⟩
    | none =>
      refine .inr ?_
      simp only [worldStep, hp]
      exact .keep w
  | crash pid =>
    -- a crash only ends its process
    refine .inr ⟨.keep w.commands, rfl, fun p hp => ?_⟩
    rcases List.mem_or_eq_of_mem_set hp with hold | rfl
    · exact .inl hold
    · exact .inr rfl

theorem worldStep_table (w : World) (a : Act) :
    TableStep w.commands (worldStep digest w a).1.commands (worldStep digest w a).2 := by
  rcases worldStep_cases digest w a with ⟨pid, now, skipped, p, -, -, hstep⟩ | hquiet
  · rw [hstep]
    exact procStep_table digest now skipped w p
  · rw [hquiet.silent]
    exact hquiet.table

/-! ## What a row goes through -/

variable {es : List QueueEvent}

theorem RowStep.same (h : RowStep id c c' es) : SameCommand c c' := by
  cases h <;> exact ⟨rfl, rfl, rfl, rfl, rfl⟩

theorem TableStep.row {R : GatewayCommand → GatewayCommand → Prop} (hrefl : ∀ c, R c c)
    (htrans : ∀ a b c, R a b → R b c → R a c) (hwrite : ∀ id c c' es, RowStep id c c' es → R c c')
    (h : TableStep commands commands' es) (hc : commands[id]? = some c) :
    ∃ c', commands'[id]? = some c' ∧ R c c' := by
  induction h generalizing c with
  | keep => exact ⟨c, hc, hrefl c⟩
  | enqueue commands new =>
    have hlt := (List.getElem?_eq_some_iff.mp hc).1
    exact ⟨c, by rw [List.getElem?_append_left hlt]; exact hc, hrefl c⟩
  | @write commands id' c₀ c' es hc₀ hrow =>
    by_cases hid : id' = id
    · subst hid
      obtain rfl := Option.some.inj (hc₀.symm.trans hc)
      have hlt := (List.getElem?_eq_some_iff.mp hc).1
      exact ⟨c', List.getElem?_set_self hlt, hwrite _ _ _ _ hrow⟩
    · exact ⟨c, by rw [List.getElem?_set_ne hid]; exact hc, hrefl c⟩
  | andThen h h₁ ih ih₁ =>
    obtain ⟨c₁, hc₁, hR⟩ := ih hc
    obtain ⟨c₂, hc₂, hR₁⟩ := ih₁ hc₁
    exact ⟨c₂, hc₂, htrans _ _ _ hR hR₁⟩

theorem TableStep.same (h : TableStep commands commands' es) (hc : commands[id]? = some c) :
    ∃ c', commands'[id]? = some c' ∧ SameCommand c c' :=
  h.row SameCommand.refl (fun _ _ _ => SameCommand.trans) (fun _ _ _ _ => RowStep.same) hc

/-- A row with a result is left alone, but for somebody who writes its params from outside. -/
def Frozen (c c' : GatewayCommand) : Prop :=
  c.status.terminal = true → ∃ params, c' = { c with params := params }

theorem Frozen.refl (c : GatewayCommand) : Frozen c c := fun _ => ⟨c.params, rfl⟩

theorem Frozen.trans {a b : GatewayCommand} (h : Frozen a b) (h' : Frozen b c) : Frozen a c := by
  intro hterminal
  obtain ⟨params, rfl⟩ := h hterminal
  obtain ⟨params', rfl⟩ := h' hterminal
  exact ⟨params', rfl⟩

theorem RowStep.frozen (h : RowStep id c c' es) : Frozen c c' := by
  intro hc
  cases h with
  | overwrite params => exact ⟨params, rfl⟩
  | deliver hpending => rw [hpending] at hc; cases hc
  | consume hdelivered | record hdelivered => rw [hdelivered] at hc; cases hc

theorem TableStep.frozen (h : TableStep commands commands' es) (hc : commands[id]? = some c) :
    ∃ c', commands'[id]? = some c' ∧ Frozen c c' :=
  h.row Frozen.refl (fun _ _ _ => Frozen.trans) (fun _ _ _ _ => RowStep.frozen) hc

/-! ## Each latch closes once -/

/-- A write that leaves the latch alone, or closes it and reports that. -/
def RowStep.Turns (flip : QueueEvent → Option Nat) (on : GatewayCommand → Bool) (id : Nat)
    (c c' : GatewayCommand) (es : List QueueEvent) : Prop :=
  on c' = on c ∧ (∀ e ∈ es, flip e = none) ∨
    on c = false ∧ on c' = true ∧ ∃ e, es = [e] ∧ flip e = some id

theorem TableStep.latched {flip : QueueEvent → Option Nat} {on : GatewayCommand → Bool}
    (hwrite : ∀ id c c' es, RowStep id c c' es → RowStep.Turns flip on id c c' es)
    (hnew : ∀ c : GatewayCommand, c.status = .pending → c.consumedAt = none → on c = false)
    (hstep : TableStep commands commands' es) {events : List QueueEvent}
    (h : Latched flip (tableOn on commands) events) :
    Latched flip (tableOn on commands') (events ++ es) := by
  induction hstep generalizing events with
  | keep => exact h.keep (fun e he => by cases he) fun _ => rfl
  | enqueue commands c hpending hopen => exact h.insert (hnew c hpending hopen)
  | write hc hrow =>
    rcases hwrite _ _ _ _ hrow with ⟨hon, hes⟩ | ⟨hopen, hclosed, e, rfl, he⟩
    · exact h.update hc hon hes
    · exact h.win hc hopen hclosed he
  | andThen _ _ ih ih₁ =>
    rw [← List.append_assoc]
    exact ih₁ (ih h)

/-- The command has been handed out. -/
def GatewayCommand.isDelivered (c : GatewayCommand) : Bool := c.status ≠ .pending

/-- The command has its result. -/
def GatewayCommand.isRecorded (c : GatewayCommand) : Bool := c.status.terminal

def GatewayCommand.isConsumed (c : GatewayCommand) : Bool := c.consumedAt.isSome

theorem outcome_ne_pending (r : Report) : r.outcome ≠ .pending := by
  unfold Report.outcome
  split <;> decide

theorem RowStep.turns_delivers (id : Nat) (c c' : GatewayCommand) (es : List QueueEvent)
    (h : RowStep id c c' es) :
    RowStep.Turns QueueEvent.delivers GatewayCommand.isDelivered id c c' es := by
  cases h with
  | overwrite params => exact .inl ⟨rfl, by simp⟩
  | deliver hpending => exact .inr ⟨by simp [GatewayCommand.isDelivered, hpending], rfl, _, rfl, rfl⟩
  | consume hdelivered => exact .inl ⟨rfl, by simp [QueueEvent.delivers]⟩
  | record hdelivered r now =>
    refine .inl ⟨?_, by simp [QueueEvent.delivers]⟩
    simp [GatewayCommand.isDelivered, hdelivered, outcome_ne_pending r]

theorem RowStep.turns_records (id : Nat) (c c' : GatewayCommand) (es : List QueueEvent)
    (h : RowStep id c c' es) :
    RowStep.Turns QueueEvent.records GatewayCommand.isRecorded id c c' es := by
  cases h with
  | overwrite params => exact .inl ⟨rfl, by simp⟩
  | deliver hpending =>
    refine .inl ⟨?_, by simp [QueueEvent.records]⟩
    simp [GatewayCommand.isRecorded, hpending, CommandStatus.terminal]
  | consume hdelivered => exact .inl ⟨rfl, by simp [QueueEvent.records]⟩
  | record hdelivered r now =>
    refine .inr ⟨?_, outcome_terminal r, _, rfl, rfl⟩
    simp [GatewayCommand.isRecorded, hdelivered, CommandStatus.terminal]

theorem RowStep.turns_consumes (id : Nat) (c c' : GatewayCommand) (es : List QueueEvent)
    (h : RowStep id c c' es) :
    RowStep.Turns QueueEvent.consumes GatewayCommand.isConsumed id c c' es := by
  cases h with
  | overwrite params => exact .inl ⟨rfl, by simp⟩
  | deliver hpending | record hdelivered r now => exact .inl ⟨rfl, by simp [QueueEvent.consumes]⟩
  | consume hdelivered hopen now =>
    exact .inr ⟨by simp [GatewayCommand.isConsumed, hopen], rfl, _, rfl, rfl⟩

/-- A result comes after the delivery of its command. -/
def AfterDelivery (before : List QueueEvent) (e : QueueEvent) : Prop :=
  ∀ id, e.records = some id → ∃ e' ∈ before, e'.delivers = some id

theorem TableStep.afterDelivery (hstep : TableStep commands commands' es) {events : List QueueEvent}
    (hlatched : Latched QueueEvent.delivers (tableOn GatewayCommand.isDelivered commands) events)
    (h : Preceded AfterDelivery events) : Preceded AfterDelivery (events ++ es) := by
  induction hstep generalizing events with
  | keep | enqueue => simpa using h
  | write hc hrow =>
    cases hrow with
    | overwrite => simpa using h
    | deliver => exact h.snoc fun id hid => by cases hid
    | consume => exact h.snoc fun id hid => by cases hid
    | record hdelivered r now =>
      refine h.snoc fun id hid => ?_
      obtain rfl := Option.some.inj hid
      refine (hlatched.closed_iff _).mp ?_
      rw [tableOn_row hc]
      simp [GatewayCommand.isDelivered, hdelivered]
  | andThen h₁ _ ih ih₁ =>
    rw [← List.append_assoc]
    exact ih₁ (h₁.latched RowStep.turns_delivers
      (fun c hc _ => by simp [GatewayCommand.isDelivered, hc]) hlatched) (ih hlatched h)

/-! ## What a claim knows -/

variable {tenantId : Nat} {runnerId : String}

theorem pendingClaim_some {revoked : Bool} {skipped : List Nat}
    (h : pendingClaim tenantId runnerId now revoked skipped commands = some id)
    (hc : commands[id]? = some c) : claimable tenantId runnerId now revoked c = true := by
  have hmem := List.minOn?_mem h
  simp only [List.mem_filter, Bool.and_eq_true] at hmem
  simpa [hc] using hmem.2.2

/-- What a process relies on: a selected command was claimable, its params were intact, and its
row is still there. -/
def ProcOk (commands : List GatewayCommand) : Proc → Prop
  | .claiming tenantId runnerId runnerRevoked id row now =>
    claimable tenantId runnerId now runnerRevoked row = true ∧
      paramsHashIntact digest row = true ∧ ∃ c, commands[id]? = some c ∧ SameCommand row c
  | _ => True

variable {digest}

theorem ProcOk.mono (h : ProcOk digest commands p) (hstep : TableStep commands commands' es) :
    ProcOk digest commands' p := by
  cases p with
  | claiming tenantId runnerId revoked id row now =>
    obtain ⟨hclaim, hintact, c, hc, hsame⟩ := h
    obtain ⟨c', hc', hsame'⟩ := hstep.same hc
    exact ⟨hclaim, hintact, c', hc', hsame.trans hsame'⟩
  | _ => trivial

theorem claimStep_ok (now : Time) (skipped : List Nat) (commands : List GatewayCommand)
    (tenantId : Nat) (runnerId : String) (revoked : Bool) :
    ProcOk digest commands
      (claimStep digest now skipped commands tenantId runnerId revoked) := by
  unfold claimStep
  split
  · trivial
  · rename_i id hclaim
    split
    · trivial
    · rename_i row hrow
      split
      · rename_i hintact
        exact ⟨pendingClaim_some hclaim hrow, hintact, row, hrow, .refl row⟩
      · trivial

theorem procStep_ok (now : Time) (skipped : List Nat) (w : World) (p : Proc) :
    ProcOk digest (procStep digest now skipped w p).commands
      (procStep digest now skipped w p).proc := by
  cases p with
  | polling => exact claimStep_ok now skipped w.commands _ _ _
  | claiming | consuming r | recording r =>
    unfold procStep
    simp only
    split <;> trivial
  | accepting r loaded =>
    unfold procStep acceptStep
    simp only
    split
    · trivial
    · split
      · split <;> trivial
      · trivial
  | done => trivial

/-- Every process knows what it relies on. -/
def ProcsOk (digest : Params → String) (w : World) : Prop :=
  ∀ p ∈ w.procs, ProcOk digest w.commands p

theorem ProcOk.of_not_claims (h : p.claims = false) : ProcOk digest commands p := by
  cases p with
  | claiming => cases h
  | _ => trivial

theorem worldStep_procs (h : ProcsOk digest w) (a : Act) :
    ProcsOk digest (worldStep digest w a).1 := by
  rcases worldStep_cases digest w a with ⟨pid, now, skipped, p, -, -, hstep⟩ | hquiet
  · rw [hstep]
    intro q hq
    rcases List.mem_or_eq_of_mem_set hq with hold | rfl
    · exact (h q hold).mono (procStep_table digest now skipped w p)
    · exact procStep_ok now skipped w p
  · intro q hq
    rcases hquiet.procs q hq with hold | hfresh
    · exact (h q hold).mono hquiet.table
    · exact .of_not_claims hfresh

theorem procStep_delivered {stepNow : Time} {skipped : List Nat} {row : GatewayCommand}
    {revoked : Bool}
    (h : .delivered tenantId runnerId id row now revoked ∈ (procStep digest stepNow skipped w p).events) :
    revoked = w.revoked tenantId runnerId ∧
      ∃ flag, p = .claiming tenantId runnerId flag id row now := by
  cases p with
  | claiming t r flag id' row' claimedAt =>
    unfold procStep at h
    simp only at h
    split at h
    · rw [List.mem_singleton] at h
      cases h
      exact ⟨rfl, flag, rfl⟩
    · cases h
  | polling => cases h
  | accepting r loaded =>
    unfold procStep acceptStep at h
    simp only at h
    split at h
    · cases h
    · split at h
      · split at h <;> simp at h
      · cases h
  | consuming r | recording r =>
    unfold procStep at h
    simp only at h
    split at h <;> simp at h
  | done => cases h

theorem worldStep_delivered {a : Act} {row : GatewayCommand} {revoked : Bool}
    (h : .delivered tenantId runnerId id row now revoked ∈ (worldStep digest w a).2) :
    revoked = w.revoked tenantId runnerId ∧ ∃ pid stepNow skipped flag,
      a = .advance pid stepNow skipped ∧
        w.procs[pid]? = some (.claiming tenantId runnerId flag id row now) := by
  rcases worldStep_cases digest w a with ⟨pid, stepNow, skipped, p, ha, hp, hstep⟩ | hquiet
  · rw [hstep] at h
    obtain ⟨hrevoked, flag, rfl⟩ := procStep_delivered h
    exact ⟨hrevoked, pid, stepNow, skipped, flag, ha, hp⟩
  · rw [hquiet.silent] at h
    cases h

/-! ## Every run -/

/-- What a delivery was: to the runner the command is for, before it expired, with params that
hash to what the command is bound to. -/
def Handed (digest : Params → String) (commands : List GatewayCommand) (e : QueueEvent) : Prop :=
  ∀ tenantId runnerId id row now revoked, e = .delivered tenantId runnerId id row now revoked →
    ∃ c, commands[id]? = some c ∧ c.tenantId = tenantId ∧ c.runnerId = runnerId ∧
      now < c.expiresAt ∧ digest row.params = c.paramsHash ∧ c.safetyLevel = row.safetyLevel

theorem Handed.mono {e : QueueEvent} (h : Handed digest commands e)
    (hstep : TableStep commands commands' es) : Handed digest commands' e := by
  intro tenantId runnerId id row now revoked he
  obtain ⟨c, hc, ht, hr, hnow, hhash, hlevel⟩ := h tenantId runnerId id row now revoked he
  obtain ⟨c', hc', hsame⟩ := hstep.same hc
  exact ⟨c', hc', hsame.tenantId.trans ht, hsame.runnerId.trans hr, hsame.expiresAt ▸ hnow,
    hhash.trans hsame.paramsHash.symm, hsame.safetyLevel.trans hlevel⟩

theorem ProcOk.handed {flag : Bool} {row : GatewayCommand}
    (h : ProcOk digest commands (.claiming tenantId runnerId flag id row now)) (revoked : Bool) :
    Handed digest commands (.delivered tenantId runnerId id row now revoked) := by
  intro t r id' row' now' revoked' he
  cases he
  obtain ⟨hclaim, hintact, c, hc, hsame⟩ := h
  simp only [claimable, Bool.and_eq_true, decide_eq_true_eq] at hclaim
  obtain ⟨⟨⟨⟨⟨ht, hr⟩, -⟩, hnow⟩, -⟩, -⟩ := hclaim
  refine ⟨c, hc, hsame.tenantId.trans ht, hsame.runnerId.trans hr, ?_, ?_, hsame.safetyLevel⟩
  · rw [hsame.expiresAt]
    exact hnow
  · rw [hsame.paramsHash]
    simpa [paramsHashIntact] using hintact

/-- What holds in every state of the queue. -/
structure QueueInv (digest : Params → String) (c : Config World QueueEvent) : Prop where
  deliveries : Latched QueueEvent.delivers (tableOn GatewayCommand.isDelivered c.state.commands)
    c.events
  latches : Latched QueueEvent.consumes (tableOn GatewayCommand.isConsumed c.state.commands)
    c.events
  results : Latched QueueEvent.records (tableOn GatewayCommand.isRecorded c.state.commands)
    c.events
  order : Preceded AfterDelivery c.events
  procs : ProcsOk digest c.state
  handed : ∀ e ∈ c.events, Handed digest c.state.commands e

theorem queueInv_begin : QueueInv digest (commandQueue digest).begin_ where
  deliveries := Latched.nil fun _ => rfl
  latches := Latched.nil fun _ => rfl
  results := Latched.nil fun _ => rfl
  order := Preceded.nil _
  procs p hp := by cases hp
  handed e he := by cases he

theorem queueInv_next (c : Config World QueueEvent) (a : Act) (h : QueueInv digest c) :
    QueueInv digest ((commandQueue digest).next c a) := by
  have hstep := worldStep_table digest c.state a
  refine ⟨?_, ?_, ?_, ?_, worldStep_procs h.procs a, ?_⟩
  · refine hstep.latched RowStep.turns_delivers (fun c hc _ => ?_) h.deliveries
    simp [GatewayCommand.isDelivered, hc]
  · refine hstep.latched RowStep.turns_consumes (fun c _ hc => ?_) h.latches
    simp [GatewayCommand.isConsumed, hc]
  · refine hstep.latched RowStep.turns_records (fun c hc _ => ?_) h.results
    simp [GatewayCommand.isRecorded, hc, CommandStatus.terminal]
  · exact hstep.afterDelivery h.deliveries h.order
  · intro e he
    rcases List.mem_append.mp he with hold | hnew
    · exact (h.handed e hold).mono hstep
    · intro tenantId runnerId id row now revoked heq
      subst heq
      obtain ⟨-, pid, stepNow, skipped, flag, -, hp⟩ := worldStep_delivered hnew
      have hproc := h.procs _ (List.mem_of_getElem? hp)
      exact ((hproc.handed revoked).mono hstep) _ _ _ _ _ _ rfl

/-- A claim commits under the flag its poll read while the runner still has it. -/
def flagCurrent (c : Config World QueueEvent) : Act → Bool
  | .advance pid _ _ =>
    match c.state.procs[pid]? with
    | some (.claiming tenantId runnerId flag _ _ _) => flag || !c.state.revoked tenantId runnerId
    | _ => true
  | _ => true

/-- No remote write was handed to a revoked runner. -/
def RevokedGetNoWrite (e : QueueEvent) : Prop :=
  ∀ tenantId runnerId id row now revoked, e = .delivered tenantId runnerId id row now revoked →
    isRemoteWrite row.safetyLevel = true → revoked = false

theorem revokedGetNoWrite_next (c : Config World QueueEvent) (a : Act)
    (h : QueueInv digest c ∧ ∀ e ∈ c.events, RevokedGetNoWrite e) (hflag : flagCurrent c a = true) :
    QueueInv digest ((commandQueue digest).next c a) ∧
      ∀ e ∈ ((commandQueue digest).next c a).events, RevokedGetNoWrite e := by
  refine ⟨queueInv_next c a h.1, ?_⟩
  intro e he
  rcases List.mem_append.mp he with hold | hnew
  · exact h.2 e hold
  · intro tenantId runnerId id row now revoked heq hwrite
    subst heq
    obtain ⟨rfl, pid, stepNow, skipped, flag, rfl, hp⟩ := worldStep_delivered hnew
    obtain ⟨hclaim, -⟩ := h.1.procs _ (List.mem_of_getElem? hp)
    simp only [claimable, hwrite, Bool.and_true, Bool.and_eq_true, Bool.not_eq_true'] at hclaim
    have hunflagged : flag = false := hclaim.2
    simp only [flagCurrent, hp, hunflagged, Bool.false_or, Bool.not_eq_true'] at hflag
    exact hflag

/-- What everybody may rely on: a command is handed out once at most, and as `Handed` says; its
latch and its result are taken once at most, the result after the delivery. -/
structure QueueSafe (digest : Params → String) (c : Config World QueueEvent) : Prop where
  deliveredOnce : ∀ id, flips QueueEvent.delivers id c.events ≤ 1
  handed : ∀ e ∈ c.events, Handed digest c.state.commands e
  consumedOnce : ∀ id, flips QueueEvent.consumes id c.events ≤ 1
  recordedOnce : ∀ id, flips QueueEvent.records id c.events ≤ 1
  afterDelivery : Preceded AfterDelivery c.events

theorem frozen_next (c : Config World QueueEvent) (a : Act) {x : GatewayCommand}
    (hx : c.state.commands[id]? = some x) :
    ∃ x', ((commandQueue digest).next c a).state.commands[id]? = some x' ∧ Frozen x x' :=
  (worldStep_table digest c.state a).frozen hx

theorem frozen_run (c : Config World QueueEvent) (acts : List Act) {x : GatewayCommand}
    (hx : c.state.commands[id]? = some x) :
    ∃ x', ((commandQueue digest).run c acts).state.commands[id]? = some x' ∧ Frozen x x' := by
  refine (commandQueue digest).run_induct (P := fun c' => ∃ x', c'.state.commands[id]? = some x' ∧
    Frozen x x') ?_ ⟨x, hx, .refl x⟩ acts
  rintro c' a ⟨x', hx', hfrozen⟩
  obtain ⟨x'', hx'', hfrozen'⟩ := frozen_next c' a hx'
  exact ⟨x'', hx'', hfrozen.trans hfrozen'⟩

/-- **The queue hands out each command once and takes one result for it.** In every run of the
queue by any number of runners and workers: a command is delivered at most once, to its own
runner, before it expires and with the params it is bound to; its result is accepted at most
once, after the delivery; and a command with a result is not written again. A revoked runner
gets no remote write in every run whose claims commit under a flag that is still the
runner's. -/
theorem queue_safety (digest : Params → String) (acts : List Act) :
    QueueSafe digest ((commandQueue digest).run (commandQueue digest).begin_ acts) ∧
      (∀ (id : Nat) (x : GatewayCommand) (more : List Act),
        ((commandQueue digest).run (commandQueue digest).begin_ acts).state.commands[id]? = some x →
        ∃ x', ((commandQueue digest).run (commandQueue digest).begin_
          (acts ++ more)).state.commands[id]? = some x' ∧ Frozen x x') ∧
      ((commandQueue digest).Along (fun c a => flagCurrent c a = true)
          (commandQueue digest).begin_ acts →
        ∀ e ∈ ((commandQueue digest).run (commandQueue digest).begin_ acts).events,
          RevokedGetNoWrite e) := by
  have hinv := (commandQueue digest).run_induct queueInv_next queueInv_begin acts
  refine ⟨⟨hinv.deliveries.at_most_once, hinv.handed, hinv.latches.at_most_once,
    hinv.results.at_most_once, hinv.order⟩, ?_, ?_⟩
  · intro id x more hx
    rw [(commandQueue digest).run_append]
    exact frozen_run _ more hx
  · intro halong
    have hbegin : QueueInv digest (commandQueue digest).begin_ ∧
        ∀ e ∈ (commandQueue digest).begin_.events, RevokedGetNoWrite e :=
      ⟨queueInv_begin, fun e he => by cases he⟩
    exact ((commandQueue digest).along_induct revokedGetNoWrite_next hbegin halong).2

/-! ## Two small runs -/

/-- The digest names the keys. -/
def keyDigest (params : Params) : String := String.join (params.map (·.1))

/-- A command of the remote-write tier, or a read, for the runner "edge". -/
def edgeCommand (level : SafetyLevel) : EnqueueArgs :=
  ⟨1, "edge", "k8s.label", [("pod", .null)], "asker", none, none, none, none, level⟩

/-- The runner is registered, a write is queued and delivered, and its result is reported. -/
def deliveredRun : List Act :=
  [.register 1 "edge", .enqueue (edgeCommand .caution) 0, .poll 1 "edge", .advance 0 1 [],
    .advance 0 2 [], .accept ⟨1, "edge", 0, true, none, none⟩, .advance 1 3 []]

theorem queue_safety_delivered :
    (commandQueue keyDigest).Along (fun c a => flagCurrent c a = true)
        (commandQueue keyDigest).begin_ deliveredRun ∧
      (((commandQueue keyDigest).run (commandQueue keyDigest).begin_ deliveredRun).events.map
        QueueEvent.delivers).contains (some 0) = true ∧
      ∀ e ∈ ((commandQueue keyDigest).run (commandQueue keyDigest).begin_ deliveredRun).events,
        RevokedGetNoWrite e := by
  have hcurrent : (commandQueue keyDigest).Along (fun c a => flagCurrent c a = true)
      (commandQueue keyDigest).begin_ deliveredRun := by decide
  exact ⟨hcurrent, by decide, (queue_safety keyDigest deliveredRun).2.2 hcurrent⟩

/-- The runner is revoked while its poll waits; the write is queued and the poll still claims it
under the flag it read at its start. -/
def stalePollRun : List Act :=
  [.register 1 "edge", .poll 1 "edge", .enqueue (edgeCommand .caution) 0, .revoke 1 "edge",
    .advance 0 1 [], .advance 0 2 []]

def QueueEvent.writeToRevoked : QueueEvent → Bool
  | .delivered _ _ _ row _ revoked => revoked && isRemoteWrite row.safetyLevel
  | _ => false

theorem RevokedGetNoWrite.not_writeToRevoked {e : QueueEvent} (h : RevokedGetNoWrite e) :
    e.writeToRevoked = false := by
  cases e with
  | delivered tenantId runnerId id row now revoked =>
    by_contra hwrite
    simp only [QueueEvent.writeToRevoked, Bool.not_eq_false, Bool.and_eq_true] at hwrite
    rw [h _ _ _ _ _ _ rfl hwrite.2] at hwrite
    cases hwrite.1
  | _ => rfl

/-- A revoked runner gets a remote write. -/
theorem stale_poll_delivers_write :
    ¬∀ (digest : Params → String) (acts : List Act),
      ∀ e ∈ ((commandQueue digest).run (commandQueue digest).begin_ acts).events,
        RevokedGetNoWrite e := by
  intro h
  have hnone := fun e he => (h keyDigest stalePollRun e he).not_writeToRevoked
  have hany : ((commandQueue keyDigest).run (commandQueue keyDigest).begin_
      stalePollRun).events.any QueueEvent.writeToRevoked = true := by decide
  obtain ⟨e, he, hwrite⟩ := List.any_eq_true.mp hany
  rw [hnone e he] at hwrite
  cases hwrite

end Meho.Gateway
