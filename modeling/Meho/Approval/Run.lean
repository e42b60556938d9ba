import Meho.Lib.History
import Meho.Approval.Park

/- Running an approved request: the operator resume
(`resume_dispatch_after_approval`), the agent waiter
(`_resume_approved_or_already_resumed`), the re-run of a failed run
(`rerun_failed_request`) and the remote-write mint (`_mint_remote_write`), by
any number of processes at once.

A process stands at one point of one of these functions (`Proc`). Between two
points it makes at most one database transaction, and that transaction is one
atomic step; everything else it does between them is its own. Whatever the
code reads from outside the database is given to each step (`Inp`): the clock,
the settings, the running release, whether the pod is stopping, the preview and
the object the live system shows, how a dispatch ends, and whether a
best-effort write fails. A process may stop at any point (`Act.crash`).

The machine's other actions are the transactions of the queue itself and the
edits of the target table. Its events are what an observer can see: parked
calls, decisions, runs that start and end, recorded results, refusals.

Correspondence: `consume_remote_write_approval` with `end_run_input` ↔
`consumeRemoteWriteApproval`, `consume` ↔ `consumeHandoff`; what is not listed keeps
its name. -/
namespace Meho.Approval
open Meho.Lib

/-! ## What a run is about -/

/-- A target as a call carries it: its id and the connection settings in use. -/
abbrev CallTarget := Nat × TargetSettings

/-- A call that is started. -/
structure Call where
  tenantId : Nat
  connectorId : String
  opId : String
  target : Option CallTarget
  params : Params

/-- Why an approved run is refused. -/
inductive RefusalCause where
  | releaseChanged (requestRelease : Option String) (runningRelease : String)
  | targetChanged
  | targetGone
  | previewChanged
  | objectChanged (reason : String)
  deriving DecidableEq, Repr

def RefusalCause.errorCode : RefusalCause → String
  | .releaseChanged _ _ => "release_changed_while_waiting"
  | .targetChanged => "target_changed_since_approval"
  | .targetGone => "target_gone_since_approval"
  | .previewChanged => "preview_changed_since_approval"
  | .objectChanged _ => "object_changed_since_approval"

def optStr (s : Option String) : Json :=
  match s with
  | some s => .str s
  | none => .null

def optId (id : Option Nat) : Json :=
  match id with
  | some id => .int id
  | none => .null

def RefusalCause.reason (request : ApprovalRequest) : RefusalCause → String
  | .releaseChanged _ _ =>
    "MEHO was updated after this request was made, so the approval does " ++
      "not cover the running release. The operation did not run. Ask again."
  | .targetChanged =>
    "The connection settings of the target changed after this request was " ++
      "made, so the approval does not cover the run. The operation did not run. Ask again."
  | .targetGone =>
    "approved target " ++ ((request.targetId.map toString).getD "None") ++
      " no longer resolves (deleted or revoked " ++
      "after the request was made), so the approval does not cover the run. " ++
      "The operation did not run. Ask again."
  | .previewChanged =>
    "The preview of this call is not the one that was approved. " ++
      "The operation did not run. Ask again."
  | .objectChanged reason => reason

/-- The `extras` of a refusal beyond its code, reason and request. -/
def RefusalCause.details (request : ApprovalRequest) : RefusalCause → Dict
  | .releaseChanged requestRelease runningRelease =>
    [("request_release", optStr requestRelease), ("running_release", .str runningRelease)]
  | .targetChanged => [("target_id", optId request.targetId)]
  | .targetGone => [("target_id", optId request.targetId)]
  | .previewChanged => []
  | .objectChanged _ => []

/-- The result a refused run is given, and which is stored as the run's result. -/
def RefusalCause.envelope (requestId : Nat) (request : ApprovalRequest) (cause : RefusalCause) :
    Dict :=
  let reason := cause.reason request
  [("status", .str "denied"), ("op_id", .str request.opId),
    ("error", .str (cause.errorCode ++ ": " ++ reason)), ("duration_ms", .float "0.0"),
    ("extras", .obj ([("error_code", .str cause.errorCode), ("reason", .str reason),
      ("approval_request_id", .int requestId)] ++ cause.details request))]

/-- How a dispatch ends: with its result envelope as it is stored, or with an exception. -/
inductive RunOutcome where
  | returned (envelope : Dict)
  | raised (exceptionName : String)

/-- What a step reads from outside the database. -/
structure Inp where
  now : Time
  settings : Settings
  draining : Bool
  runningReleaseId : Option String
  workRef : Option String
  previewNow : Option String
  objectNow : Option String
  mintReady : Bool
  writeFails : Bool
  outcome : RunOutcome

/-! ## Shared checks -/

/-- The params an approved run uses: the caller's own without a reveal flag, else the stored
ones while they still hold every value. -/
def storedCall (request : ApprovalRequest) (params : Option Params) : Option Params :=
  match params with
  | some params => some (callParams params)
  | none =>
    match request.params with
    | none => none
    | some stored => if Redaction.holdsHiddenParamValues (.obj stored) then none else some stored

def targetChangedSinceRequest (H : Hashing) (request : ApprovalRequest)
    (settings : TargetSettings) : Bool :=
  match request.targetHash with
  | none => false
  | some hash => H.target settings ≠ hash

/-- The target the request pinned, as it is now, or why the run is refused. -/
def rehydrateResumeTarget (H : Hashing) (s : Store) (operator : Operator)
    (request : ApprovalRequest) : Except RefusalCause (Option CallTarget) :=
  match request.targetId with
  | none => .ok none
  | some id =>
    match s.resolveTargetById operator.tenantId id with
    | none => .error .targetGone
    | some target =>
      if targetChangedSinceRequest H request target.settings then .error .targetChanged
      else .ok (some (id, target.settings))

def previewChangedSinceRequest (request : ApprovalRequest) (inp : Inp) : Bool :=
  match request.previewHash with
  | none => false
  | some hash => inp.previewNow ≠ some hash

/-- A JSON mapping's entries. -/
def Json.asObj? : Json → Option Dict
  | .obj fields => some fields
  | _ => none

/-- Whether the approval card names an object. -/
def hasCardObject (effect : Dict) : Bool :=
  let block := match (dictGet effect "blast_radius").bind Json.asObj? with
    | some block => some block
    | none =>
      (((dictGet effect "preview").bind Json.asObj?).bind fun p =>
        dictGet p "blast_radius").bind Json.asObj?
  (block.bind fun b => (dictGet b "object").bind Json.asObj?).isSome

/-- Why the object check refuses the run. -/
def objectChangedSinceRequest (request : ApprovalRequest) (inp : Inp) : Option String :=
  if request.previewHash.isNone || !hasCardObject request.proposedEffect then none
  else inp.objectNow

/-- The two checks of a run that stored a preview hash. -/
def previewRefusal (request : ApprovalRequest) (inp : Inp) : Option RefusalCause :=
  if previewChangedSinceRequest request inp then some .previewChanged
  else (objectChangedSinceRequest request inp).map .objectChanged

/-- Win the run claim: one conditional update, and in the same transaction the stored params
lose their secret-named values. -/
def claimResume (now : Time) (requestId : Nat) (s : Store) : Bool × Store :=
  match s.requests[requestId]? with
  | none => (false, s)
  | some r =>
    if r.resumedAt.isNone ∧ r.status = .approved then
      (true, s.updateRequest requestId fun r =>
        { r with resumedAt := some now, params := hideStoredParams r.params })
    else (false, s)

/-- Store a run's result on the row. -/
def persistResumeResult (requestId : Nat) (result : Dict) (s : Store) : Store :=
  s.updateRequest requestId fun r => { r with resumeResult := some result }

/-- Read and delete a custody row. -/
def consumeHandoff (handle requestId tenantId : Nat) (s : Store) :
    Option (HandoffPayload × Store) :=
  (s.custody.find? fun c => c.handle = handle ∧ c.requestId = requestId ∧ c.tenantId = tenantId).map
    fun c => (c.payload, { s with custody := s.custody.filter fun d => d.handle ≠ handle })

/-! ## The points a process stands at -/

/-- The three paths that run an approved request. -/
inductive RunPath where
  | operatorResume
  | agentWaiter
  | rerun
  deriving DecidableEq, Repr

/-- The agent's original call, which the waiter keeps in memory. -/
structure CallArguments where
  opId : String
  params : Params
  fqdn : Option String

/-- One caller's work on a request: who it is, the row as it read it, the params and the op it
would run directly, and the `rerun_count` the run belongs to. Only a re-run has one. -/
structure Job where
  path : RunPath
  operator : Operator
  requestId : Nat
  request : ApprovalRequest
  params : Option Params
  opId : String
  fqdn : Option String
  attempt : Nat
  firstRun : path ≠ .rerun → attempt = 0

/-- The job after its re-run claim. -/
def Job.again (j : Job) (count : Nat) : Job :=
  { j with path := .rerun, attempt := count, firstRun := fun h => absurd rfl h }

/-- A mint call: the call proper and the caller. -/
structure MintCall where
  operator : Operator
  connectorId : String
  opId : String
  target : Option CallTarget
  params : Params

/-- A run path, by the statement it is before. -/
inductive Proc where
  | done
  | resumeStart (operator : Operator) (requestId : Nat) (request : ApprovalRequest)
      (params : Option Params)
  | waiterStart (operator : Operator) (requestId : Nat) (call : CallArguments)
  | checkTarget (j : Job)
  | takeClaim (j : Job) (target : Option CallTarget)
  | takeInput (j : Job) (target : Option CallTarget)
  | checkPreview (j : Job) (target : Option CallTarget) (params : Params)
      (parent : Option ResumeParent)
  | startRun (j : Job) (target : Option CallTarget) (params : Params)
      (parent : Option ResumeParent)
  | running (j : Job)
  | storeResult (j : Job) (result : Dict)
  | refuseClaim (j : Job) (cause : RefusalCause)
  | refuseDiscard (j : Job) (cause : RefusalCause)
  | refuseAudit (j : Job) (cause : RefusalCause)
  | refuseStore (j : Job) (cause : RefusalCause)
  | rerunStart (operator : Operator) (requestId : Nat) (params : Option Params)
  | rerunRefuse (j : Job) (code : String) (statusCode : Nat)
  | rerunTarget (j : Job) (params : Params)
  | rerunClaim (j : Job) (target : Option CallTarget) (params : Params)
  | mintStart (call : MintCall)
  | mintClaim (call : MintCall) (requestId : Nat) (approval : ApprovalRequest)

/-- What an observer sees. -/
inductive Event where
  | parked (requestId : Nat) (args : CreateArgs) (settings : Option TargetSettings)
  | approved (requestId : Nat) (operator : Operator) (rule : ApprovalRule)
      (auth : Option ApprovalAuth) (request : ApprovalRequest)
  | started (requestId : Nat) (path : RunPath) (attempt : Nat) (call : Call)
  | ended (requestId : Nat) (attempt : Nat)
  | recorded (requestId : Nat) (result : Dict)
  | refused (requestId : Nat) (cause : RefusalCause)
  | minted (requestId : Nat) (call : Call)

/-! ## One step of a process -/

variable (D : Deployment)

/-- `resume_dispatch_after_approval` up to its first read. -/
def resumeStartStep (inp : Inp) (operator : Operator) (requestId : Nat)
    (request : ApprovalRequest) (params : Option Params) : Proc :=
  if inp.draining then .done
  else
    let effective := storedCall request params
    -- nothing was kept to run: the caller is told to approve again with the params
    if effective.isNone && request.executionHandle.isNone then .done
    else
      let j : Job := ⟨.operatorResume, operator, requestId, request, effective, request.opId,
        none, 0, fun _ => rfl⟩
      match inp.runningReleaseId with
      | some running =>
        if approvalReleaseChanged (some running) request then
          .refuseClaim j (.releaseChanged request.releaseId running)
        else .checkTarget j
      | none => .checkTarget j

/-- `_resume_approved_or_already_resumed` up to the release check. -/
def waiterStartStep (inp : Inp) (s : Store) (operator : Operator) (requestId : Nat)
    (call : CallArguments) : Proc :=
  if inp.draining then .done
  else
    match s.loadForTenant requestId operator.tenantId with
    | none => .done
    | some request =>
      let j : Job := ⟨.agentWaiter, operator, requestId, request, some call.params, call.opId,
        call.fqdn, 0, fun _ => rfl⟩
      match inp.runningReleaseId with
      | some running =>
        if approvalReleaseChanged (some running) request then
          .refuseClaim j (.releaseChanged request.releaseId running)
        else .checkTarget j
      | none => .checkTarget j

/-- The per-call virtual host of the waiter's call, applied in memory. -/
def applyTargetFqdnOverride (fqdn : Option String) (target : Option CallTarget) :
    Option CallTarget :=
  match fqdn, target with
  | some fqdn, some (id, settings) =>
    if fqdn = "" then target else some (id, { settings with fqdn := some fqdn })
  | _, _ => target

/-- The claim winner takes the run input: an operator resume reads the custody row it needs, the
waiter reads it only for a composite and else deletes it. -/
def takeInputStep (s : Store) (j : Job) (target : Option CallTarget) : Store × Proc :=
  match j.path with
  | .agentWaiter =>
    match j.request.resumeParent, j.request.executionHandle with
    | some _, some handle =>
      -- the custody row of a composite holds the parent call; without it nothing can run
      match consumeHandoff handle j.requestId j.request.tenantId s with
      | none => (s, .done)
      | some (payload, s') =>
        (s', .checkPreview j target (j.params.getD []) payload.resumeParent)
    | parent, _ =>
      (s.discardHandoff j.requestId j.operator.tenantId,
        .checkPreview j target (j.params.getD []) parent)
  | _ =>
    match j.request.executionHandle with
    | some handle =>
      match consumeHandoff handle j.requestId j.request.tenantId s with
      | none => (s, .done)
      | some (payload, s') =>
        -- the row is taken even when it does not fit the approved call
        if paramsHashMatches D.hashing payload.params j.request.paramsHash then
          (s', .checkPreview j target payload.params
            (match payload.resumeParent with
              | some p => some p
              | none => j.request.resumeParent))
        else (s', .done)
    | none =>
      match j.params with
      | some params => (s, .checkPreview j target params j.request.resumeParent)
      | none => (s, .done)

/-- The call a run dispatches: the parent composite of a parked step, else the call itself. No
call when the parent's params were not kept. -/
def runCall (j : Job) (target : Option CallTarget) (params : Params)
    (parent : Option ResumeParent) : Option Call :=
  let dispatched : Option (String × Params) :=
    match parent with
    | some p => p.params.map fun parentParams => (p.opId, parentParams)
    | none => some (j.opId, params)
  dispatched.map fun d =>
    ⟨j.operator.tenantId, j.request.connectorId, d.1, target,
      if j.path ≠ .agentWaiter ∧ j.request.revealSecret then withRevealSecret d.2 else d.2⟩

/-- What a re-run stores when its dispatch raised. -/
def rerunErrorEnvelope (j : Job) (exceptionName : String) : Dict :=
  [("status", .str "error"), ("op_id", .str j.request.opId),
    ("error", .str ("rerun_failed: the run stopped with " ++ exceptionName)),
    ("duration_ms", .float "0.0")]

/-- Where a process goes when the run raised: only a re-run stores a result then. -/
def afterRaise (j : Job) (exceptionName : String) : Proc :=
  match j.path with
  | .rerun => .storeResult j (rerunErrorEnvelope j exceptionName)
  | _ => .done

/-- Why a re-run is refused before its claim. -/
inductive RerunRefusal where
  | deadlinePassed
  | releaseChanged
  | workRefChanged
  | paramsChanged
  | targetGone
  | targetChanged
  | previewChanged
  | objectChanged
  | inputNotKept
  deriving DecidableEq, Repr

def RerunRefusal.value : RerunRefusal → String
  | .deadlinePassed => "deadline_passed"
  | .releaseChanged => "release_changed"
  | .workRefChanged => "work_ref_changed"
  | .paramsChanged => "params_changed"
  | .targetGone => "target_gone"
  | .targetChanged => "target_changed"
  | .previewChanged => "preview_changed"
  | .objectChanged => "object_changed"
  | .inputNotKept => "input_not_kept"

/-- The first rule a re-run breaks that needs no database read. -/
def staticRefusal (inp : Inp) (request : ApprovalRequest) (params : Params) :
    Option RerunRefusal :=
  if deadlineHasPassed request inp.now (some (resolveDefaultTtl inp.settings)) then
    some .deadlinePassed
  else if approvalReleaseChanged inp.runningReleaseId request then some .releaseChanged
  else if inp.workRef ≠ request.workRef then some .workRefChanged
  else if !paramsHashMatches D.hashing params request.paramsHash then some .paramsChanged
  else if (request.resumeParent.map fun p => p.params.isNone) = some true then some .inputNotKept
  else none

/-- The state name of a request that is not a failed approved run. -/
def notFailedState (request : ApprovalRequest) : Option String :=
  match approvalResultState request with
  | some .failed => none
  | some .notStarted => some "not_started"
  | some .started => some "started"
  | some .executed => some "executed"
  | none =>
    match request.status with
    | .pending => some "pending"
    | .approved => some "approved"
    | .rejected => some "rejected"
    | .expired => some "expired"
    | .withdrawn => some "withdrawn"

/-- `rerun_failed_request` up to its target read. -/
def rerunStartStep (inp : Inp) (s : Store) (operator : Operator) (requestId : Nat)
    (params : Option Params) : Proc :=
  match s.loadForTenant requestId operator.tenantId with
  | none => .done
  | some request =>
    -- only who asked may ask again
    if operator.sub ≠ request.principalSub then .done
    else
      let effective := storedCall request params
      let j : Job := ⟨.rerun, operator, requestId, request, effective, request.opId, none, 0,
        fun _ => rfl⟩
      match notFailedState request with
      | some state => .rerunRefuse j ("state_" ++ state) 409
      | none =>
        match effective with
        | none => .rerunRefuse j "params_required" 422
        | some params =>
          match staticRefusal D inp request params with
          | some refusal => .rerunRefuse j refusal.value 409
          | none => .rerunTarget j params

def rerunTargetRefusal : RefusalCause → RerunRefusal
  | .targetChanged => .targetChanged
  | _ => .targetGone

/-- The checks of a re-run that read the database and the live system. -/
def rerunTargetStep (inp : Inp) (s : Store) (j : Job) (params : Params) : Proc :=
  match rehydrateResumeTarget D.hashing s j.operator j.request with
  | .error cause => .rerunRefuse j (rerunTargetRefusal cause).value 409
  | .ok target =>
    if previewChangedSinceRequest j.request inp then
      .rerunRefuse j RerunRefusal.previewChanged.value 409
    else if (objectChangedSinceRequest j.request inp).isSome then
      .rerunRefuse j RerunRefusal.objectChanged.value 409
    else .rerunClaim j target params

/-- Take the re-run claim: one conditional update on the row as it was read. Answers the new
`rerun_count`. -/
def claimRerun (j : Job) (s : Store) : Option Nat × Store :=
  match s.requests[j.requestId]? with
  | none => (none, s)
  | some r =>
    -- the counter must be the one that was read, so of two re-runs one wins
    if r.status = .approved ∧ r.rerunCount = j.request.rerunCount ∧
        (r.resumeResult.map resultOk) = some false then
      (some (r.rerunCount + 1), s.updateRequest j.requestId fun r =>
        { r with resumeResult := none, rerunCount := r.rerunCount + 1 })
    else (none, s)

/-- The newest approved, unconsumed request for the identical tenant, op, target and params. -/
def findRemoteWriteApproval (s : Store) (call : MintCall) : Option (Nat × ApprovalRequest) :=
  let matching := (s.requests.zipIdx.map fun e => (e.2, e.1)).filter fun e =>
    e.2.tenantId = call.operator.tenantId && e.2.opId = call.opId &&
      paramsHashMatches D.hashing call.params e.2.paramsHash && e.2.status = .approved &&
      e.2.resumedAt.isNone && decide (e.2.targetId = call.target.map (·.1))
  matching.foldl (fun best e =>
    match best with
    | none => some e
    | some b => if (b.2.decidedAt.getD 0) < (e.2.decidedAt.getD 0) then some e else some b) none

/-- Consume the approval and drop its run input, in the mint's transaction. The run input is
the one the mint read. -/
def consumeRemoteWriteApproval (now : Time) (requestId : Nat) (approval : ApprovalRequest)
    (s : Store) : Option Store :=
  match s.requests[requestId]? with
  | none => none
  | some r =>
    if r.resumedAt.isNone then
      some ((s.updateRequest requestId fun r => { r with resumedAt := some now }).endRunInput
        requestId approval)
    else none

def MintCall.call (m : MintCall) : Call :=
  ⟨m.operator.tenantId, m.connectorId, m.opId, m.target, m.params⟩

/-- One step of a process: the tables after it, where it stands then, and what was seen. -/
def procStep (inp : Inp) (s : Store) : Proc → Store × Proc × List Event
  | .done => (s, .done, [])
  | .resumeStart operator requestId request params =>
    (s, resumeStartStep inp operator requestId request params, [])
  | .waiterStart operator requestId call =>
    (s, waiterStartStep inp s operator requestId call, [])
  | .checkTarget j =>
    match rehydrateResumeTarget D.hashing s j.operator j.request with
    | .error cause => (s, .refuseClaim j cause, [])
    | .ok target => (s, .takeClaim j (applyTargetFqdnOverride j.fqdn target), [])
  | .takeClaim j target =>
    -- asked once more: the pod may have begun to stop since the first check
    if inp.draining then (s, .done, [])
    else
      match claimResume inp.now j.requestId s with
      | (false, s) => (s, .done, [])
      | (true, s) => (s, .takeInput j target, [])
  | .takeInput j target =>
    let r := takeInputStep D s j target
    (r.1, r.2, [])
  | .checkPreview j target params parent =>
    match previewRefusal j.request inp with
    | some cause => (s, .refuseStore j cause, [])
    | none => (s, .startRun j target params parent, [])
  | .startRun j target params parent =>
    match runCall j target params parent with
    -- the stored parent has no params to read
    | none => (s, afterRaise j "KeyError", [])
    | some call => (s, .running j, [.started j.requestId j.path j.attempt call])
  | .running j =>
    match inp.outcome with
    | .returned envelope => (s, .storeResult j envelope, [.ended j.requestId j.attempt])
    | .raised exceptionName => (s, afterRaise j exceptionName, [.ended j.requestId j.attempt])
  | .storeResult j result =>
    -- best effort: a failed write leaves the row claimed and without a result
    if inp.writeFails then (s, .done, [])
    else (persistResumeResult j.requestId result s, .done, [.recorded j.requestId result])
  | .refuseClaim j cause =>
    -- a refusal takes the run claim, so that no other path can run the request
    match claimResume inp.now j.requestId s with
    | (false, s) => (s, .done, [])
    | (true, s) => (s, .refuseDiscard j cause, [])
  | .refuseDiscard j cause =>
    (s.discardHandoff j.requestId j.request.tenantId, .refuseAudit j cause, [])
  | .refuseAudit j cause =>
    if inp.writeFails then (s, .refuseStore j cause, [])
    else
      (s.addAudit (auditRow .policyDecision j.operator j.requestId j.request .resume 409 inp.now
        ([("result_status", .str cause.errorCode)] ++ cause.details j.request)),
        .refuseStore j cause, [])
  | .refuseStore j cause =>
    if inp.writeFails then (s, .done, [])
    else
      let result := cause.envelope j.requestId j.request
      (persistResumeResult j.requestId result s, .done,
        [.recorded j.requestId result, .refused j.requestId cause])
  | .rerunStart operator requestId params =>
    (s, rerunStartStep D inp s operator requestId params, [])
  | .rerunRefuse j code statusCode =>
    (s.addAudit (auditRow .policyDecision j.operator j.requestId j.request .rerun statusCode
      inp.now [("result_status", .str "refused"), ("refusal", .str code)]), .done, [])
  | .rerunTarget j params => (s, rerunTargetStep D inp s j params, [])
  | .rerunClaim j target params =>
    match claimRerun j s with
    | (none, s) => (s, .rerunRefuse j "claim_lost" 409, [])
    | (some count, s) =>
      (s.addAudit (auditRow .policyDecision j.operator j.requestId j.request .rerun 202 inp.now
        [("result_status", .str "accepted"), ("attempt", .int (count + 1))]),
        .startRun (j.again count) target params j.request.resumeParent, [])
  | .mintStart call =>
    match findRemoteWriteApproval D s call with
    | none => (s, .done, [])
    | some (requestId, approval) =>
      if approvalReleaseChanged inp.runningReleaseId approval || !inp.mintReady then (s, .done, [])
      else (s, .mintClaim call requestId approval, [])
  | .mintClaim call requestId approval =>
    match consumeRemoteWriteApproval inp.now requestId approval s with
    | none => (s, .done, [])
    | some s => (s, .done, [.minted requestId call.call])

/-! ## The machine -/

/-- The tables and the processes at work on them. -/
structure World where
  store : Store
  procs : List Proc

/-- One action: a transaction of the queue, an edit of the target table, a new process, a step
of a process, or the end of one. -/
inductive Act where
  | create (args : CreateArgs) (waits : Bool) (fqdn : Option String)
  | approve (settings : Settings) (clock : ApproveClock) (requestId : Nat) (operator : Operator)
      (params : Option Params) (reason : String) (auth : Option ApprovalAuth)
  | reject (settings : Settings) (decidedNow auditNow : Time) (requestId : Nat)
      (operator : Operator) (reason : String)
  | withdraw (withdrawnNow auditNow : Time) (requestId : Nat) (operator : Operator)
      (reason : String)
  | expireStale (operator : Operator) (cutoff auditNow : Time) (defaultTtl : Option Time)
      (locked : List Nat)
  | expireOlderRelease (settings : Settings) (operator : Operator) (releaseId : String)
      (cutoff auditNow : Time) (locked : List Nat)
  | addTarget (target : Target)
  | editTarget (targetId : Nat) (settings : TargetSettings)
  | deleteTarget (targetId : Nat)
  | resume (operator : Operator) (requestId : Nat)
  | rerun (operator : Operator) (requestId : Nat) (params : Option Params)
  | mint (call : MintCall)
  | advance (pid : Nat) (inp : Inp)
  | crash (pid : Nat)

/-- The call an agent's waiter keeps: the parked call, or the composite a parked step is in. -/
def waiterCall (a : CreateArgs) (fqdn : Option String) : CallArguments :=
  match a.resumeParent with
  | some p => ⟨p.opId, p.params.getD [], fqdn⟩
  | none => ⟨a.opId, a.params, fqdn⟩

/-- A new process. -/
def World.spawn (w : World) (s : Store) (p : Proc) : World := ⟨s, w.procs ++ [p]⟩

/-- One action of the machine. A raise rolls its transaction back. -/
def worldStep (w : World) : Act → World × List Event
  | .create args waits fqdn =>
    match createPendingRequest D args w.store with
    | .error _ => (w, [])
    | .ok (requestId, s) =>
      -- a retried park may find its row instead of adding one
      let parked := if w.store.requests.length ≤ requestId then
          [Event.parked requestId args (args.targetId.bind fun id =>
            (w.store.resolveTargetById args.operator.tenantId id).map (·.settings))]
        else []
      if waits then
        (w.spawn s (.waiterStart args.operator requestId (waiterCall args fqdn)), parked)
      else (⟨s, w.procs⟩, parked)
  | .approve settings clock requestId operator params reason auth =>
    match approveRequest D settings clock requestId operator params reason auth w.store with
    | (.error _, _) => (w, [])
    | (.ok (request, rule), s) =>
      (w.spawn s (.resumeStart operator requestId request params),
        [.approved requestId operator rule auth request])
  | .reject settings decidedNow auditNow requestId operator reason =>
    match rejectRequest settings decidedNow auditNow requestId operator reason w.store with
    | (.error _, _) => (w, [])
    | (.ok (), s) => (⟨s, w.procs⟩, [])
  | .withdraw withdrawnNow auditNow requestId operator reason =>
    match withdrawRequest withdrawnNow auditNow requestId operator reason w.store with
    | (.error _, _) => (w, [])
    | (.ok (), s) => (⟨s, w.procs⟩, [])
  | .expireStale operator cutoff auditNow defaultTtl locked =>
    match expireStaleRequests operator cutoff auditNow defaultTtl locked w.store with
    | .error _ => (w, [])
    | .ok s => (⟨s, w.procs⟩, [])
  | .expireOlderRelease settings operator releaseId cutoff auditNow locked =>
    match expireOlderReleaseRequests settings operator releaseId cutoff auditNow locked
      w.store with
    | .error _ => (w, [])
    | .ok s => (⟨s, w.procs⟩, [])
  | .addTarget target => (⟨{ w.store with targets := w.store.targets ++ [target] }, w.procs⟩, [])
  | .editTarget targetId settings =>
    (⟨{ w.store with
        targets := w.store.targets.modify targetId fun t => { t with settings := settings } },
      w.procs⟩, [])
  | .deleteTarget targetId =>
    (⟨{ w.store with
        targets := w.store.targets.modify targetId fun t => { t with deleted := true } },
      w.procs⟩, [])
  | .resume operator requestId =>
    -- the resume by hand: it starts like the one behind an approval, without params
    match w.store.loadForTenant requestId operator.tenantId with
    | none => (w, [])
    | some request => (w.spawn w.store (.resumeStart operator requestId request none), [])
  | .rerun operator requestId params =>
    (w.spawn w.store (.rerunStart operator requestId params), [])
  | .mint call => (w.spawn w.store (.mintStart call), [])
  | .advance pid inp =>
    match w.procs[pid]? with
    | none => (w, [])
    | some p =>
      let r := procStep D inp w.store p
      (⟨r.1, w.procs.set pid r.2.1⟩, r.2.2)
  | .crash pid => (⟨w.store, w.procs.set pid .done⟩, [])

/-- The approval queue and everything that runs approved requests. -/
def queue : Machine World Act Event := ⟨⟨Store.empty, []⟩, worldStep D⟩

end Meho.Approval
