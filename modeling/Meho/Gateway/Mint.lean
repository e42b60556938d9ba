import Mathlib.Data.List.Induction
import Meho.Approval.Guarantees
import Meho.Gateway.Queue
import Meho.Policy.Gate
import Meho.Runner.WorkItem

/- The mint of a gateway command (operations/gateway_commands.py).

A mint is one transaction, and a process here (`MintProc`) that stands before
its next statement:

  enqueue          the operation is safe and the policy gate said auto-execute;
                   the step inserts the command.
  checkRunner      the operation is a remote write; the step reads the runner's
                   `revoked` flag.
  findApproval     the step reads the approval for the call, checks its release
                   and loads the signing key.
  checkAllowlist   the step reads the runner's allowlist.
  claim            the step takes the approval with one conditional update; with
                   the row's lock it inserts the signed command and commits.

Everything before these reads (the descriptor, the check of the params, the
policy gate) happens in the step that starts the mint, on what the caller's
process finds (`MintReads`). The approval queue, its processes and the command
queue run in between: a mint machine holds both and plays their own steps. A
process that is gone has written nothing, because only its last step writes.

`mint_gate` is what holds of every run.

Correspondence: `_runner_is_revoked` ↔ `World.revoked`, `mint_gateway_command` ↔
`mintGatewayCommand` and the steps of `MintProc`, `_approval_refusal_reason` ↔
`noApprovalReason` and `oldReleaseReason`, `_screen_remote_write` ↔ `screenApproval`
and `screenAllowlist`, `_mint_remote_write` ↔ `claimStep`, `_write_gateway_audit_row` ↔
`mintAuditRow`; what is not listed keeps its name. -/
namespace Meho.Gateway.Mint
open Meho.Lib
open Meho.Approval (Params ApprovalRequest MintCall TargetSettings approvalReleaseChanged
  findRemoteWriteApproval consumeRemoteWriteApproval optId)
open Meho.Dispatch (EndpointDescriptor)
open Meho.Policy (PolicyContext PolicyCall DispatchTarget policyGate quoted)
open Meho.Runner

inductive MintRefusalCode where
  | descriptorUnknown
  | invalidParams
  | invalidOpSchema
  | opNotSafe
  | remoteWriteGateUnsatisfied
  | remoteWriteNotAllowlisted
  | remoteWriteSigningUnavailable
  | runnerRevoked
  | policyDenied
  | needsApproval
  deriving DecidableEq, Repr

def MintRefusalCode.value : MintRefusalCode → String
  | .descriptorUnknown => "descriptor_unknown"
  | .invalidParams => "invalid_params"
  | .invalidOpSchema => "invalid_op_schema"
  | .opNotSafe => "op_not_safe"
  | .remoteWriteGateUnsatisfied => "remote_write_gate_unsatisfied"
  | .remoteWriteNotAllowlisted => "remote_write_not_allowlisted"
  | .remoteWriteSigningUnavailable => "remote_write_signing_unavailable"
  | .runnerRevoked => "runner_revoked"
  | .policyDenied => "policy_denied"
  | .needsApproval => "needs_approval"

structure Refusal where
  code : MintRefusalCode
  reason : String

/-! ## The call -/

/-- The resolved target: what the policy gate reads of it, and its connection settings. -/
structure MintTarget where
  gate : DispatchTarget
  settings : TargetSettings

/-- The arguments of `mint_gateway_command`. -/
structure MintArgs where
  operator : Operator
  connectorId : String
  opId : String
  target : Option MintTarget
  params : Params
  runnerId : String
  targetDescriptor : Option Dict
  expiresAt : Option Time

namespace MintArgs

def targetId (a : MintArgs) : Option Nat := a.target.bind (·.gate.id)

/-- The scope the signature binds. -/
def targetScope (a : MintArgs) : String :=
  match a.targetId with
  | some id => toString id
  | none => targetlessScope

/-- The call as the approval queue knows it. -/
def call (a : MintArgs) : MintCall :=
  ⟨a.operator, a.connectorId, a.opId, a.target.bind fun t => t.gate.id.map (·, t.settings),
    a.params⟩

theorem call_targetId (a : MintArgs) : a.call.target.map (·.1) = a.targetId := by
  unfold call targetId
  cases a.target with
  | none => rfl
  | some t => cases h : t.gate.id <;> simp [h]

end MintArgs

/-- How `validate_params` ends. -/
inductive Validation where
  | valid
  | errors
  | unresolvableRef (missingRef : String)

/-- What a mint reads before its own transaction: the descriptor of the operation, the check of
the params against its schema, the tables of the policy gate, and the hosted agent bound to
the run. -/
structure MintReads where
  descriptor : Option EndpointDescriptor
  validation : Validation
  policy : PolicyContext
  actorSub : Option String

/-- The call as the mint hands it to the policy gate: without connector, params or preview. -/
def MintArgs.policyCall (a : MintArgs) (reads : MintReads) (descriptor : EndpointDescriptor) :
    PolicyCall :=
  ⟨a.operator, reads.actorSub, descriptor, a.target.map (·.gate), none, none, none, false⟩

/-! ## Rows -/

/-- One row of `audit_log` a mint writes. -/
structure GatewayAuditRow where
  operatorSub : String
  tenantId : Nat
  targetId : Option Nat
  occurredAt : Time
  path : String
  statusCode : Nat
  payload : Dict

def mintAuditPath : String := "gateway.command.mint"

def mintAuditStatus : Nat := 202

/-- One row of `runner_write_allowlist`. A runner is known by its name. -/
structure AllowRow where
  tenantId : Nat
  runnerName : String
  entry : AllowEntry

/-- What is fixed while the centre runs: the approval queue's digests, the cryptography, and the
operations connectors mark as safe writes. -/
structure Centre where
  approvals : Approval.Deployment
  crypto : Crypto
  isSafeWrite : String → Bool

/-- `compute_audit_params_hash`. -/
def computeAuditParamsHash (H : Approval.Hashing) (params : Params) : String :=
  H.params (Redaction.scrubFields false [] (Redaction.isSecretNameValuePair [] params) params).1

variable (P : Centre)

def mintAuditRow (a : MintArgs) (commandId : Nat) (approval : Option Nat) (signed : Bool)
    (now : Time) : GatewayAuditRow where
  operatorSub := a.operator.sub
  tenantId := a.operator.tenantId
  targetId := a.targetId
  occurredAt := now
  path := mintAuditPath
  statusCode := mintAuditStatus
  payload :=
    [("command_id", .int commandId), ("op_id", .str a.opId), ("connector_id", .str a.connectorId),
      ("runner_id", .str a.runnerId),
      ("params_hash", .str (computeAuditParamsHash P.approvals.hashing a.params)),
      ("result_status", .str "minted")] ++
      (match approval with
        | some id => [("approval_request_id", .int id)]
        | none => []) ++
      (if signed then [("signed", .bool true)] else []) ++
      (if a.operator.roleFromPlatformAdmin then [("tenant_role_source", .str "platform_admin")]
        else [])

/-- The command row of a mint. A remote write is signed over the deadline of the row. -/
def finalizeMint (a : MintArgs) (level : SafetyLevel) (mintAuditId : Nat)
    (key : Option P.crypto.SigningKey) (now : Time) : GatewayCommand :=
  let digest := paramsDigest P.crypto a.params
  let command := enqueueCommand (paramsDigest P.crypto)
    { tenantId := a.operator.tenantId
      runnerId := a.runnerId
      opId := a.opId
      params := a.params
      enqueuedBySub := a.operator.sub
      targetDescriptor := a.targetDescriptor
      paramsHash := some digest
      expiresAt := a.expiresAt
      mintAuditId := some mintAuditId
      safetyLevel := level } now
  { command with
    signature := key.map fun key =>
      signRemoteWriteItem P.crypto key a.opId digest a.targetScope command.expiresAt }

/-! ## The points of a mint -/

/-- A mint, by the check it is before. -/
inductive MintProc (K : Type) where
  | enqueue (a : MintArgs) (level : SafetyLevel)
  | checkRunner (a : MintArgs) (level : SafetyLevel)
  | findApproval (a : MintArgs) (level : SafetyLevel)
  | checkAllowlist (a : MintArgs) (level : SafetyLevel) (requestId : Nat)
      (approval : ApprovalRequest) (key : K)
  | claim (a : MintArgs) (level : SafetyLevel) (requestId : Nat) (approval : ApprovalRequest)
      (key : K)
  | done

/-- The tables, and the processes at work on them. -/
structure MintWorld (K : Type) where
  approvals : Config Approval.World Approval.Event
  queue : World
  allowlist : List AllowRow
  audit : List GatewayAuditRow
  mints : List (MintProc K)

/-- A runner's allowlist; a name without a runner has none. -/
def MintWorld.loadRunnerAllowlist {K : Type} (w : MintWorld K) (tenantId : Nat)
    (runnerName : String) : List AllowEntry :=
  match w.queue.runner? tenantId runnerName with
  | some _ => (w.allowlist.filter fun r => r.tenantId = tenantId && r.runnerName = runnerName).map
      (·.entry)
  | none => []

/-- What a step of a mint reads from its own process. -/
structure MintInp where
  now : Time
  runningReleaseId : Option String
  signingKey : String

/-- How a step of a mint ends. -/
inductive Outcome (K : Type) where
  | refused (r : Refusal)
  | goes (p : MintProc K)
  | mints (approvals : Config Approval.World Approval.Event) (command : GatewayCommand)
      (audit : GatewayAuditRow) (approval : Option Nat)

/-! ## The ladder -/

def refuseUnvalidatableParams (a : MintArgs) (reads : MintReads) : Option Refusal :=
  match reads.validation with
  | .valid => none
  | .errors =>
    some ⟨.invalidParams, "params failed schema validation for op " ++ quoted a.opId⟩
  | .unresolvableRef missingRef =>
    some ⟨.invalidOpSchema, "stored parameter_schema for op " ++ quoted a.opId ++
      " contains an unresolvable $ref (" ++ missingRef ++ "); re-ingest the connector's spec " ++
      "to repair the descriptor"⟩

/-- The ladder of `mint_gateway_command` up to the first statement of its own transaction. -/
def mintGatewayCommand (a : MintArgs) (reads : MintReads) :
    Except Refusal (MintProc P.crypto.SigningKey) :=
  match reads.descriptor with
  | none =>
    .error ⟨.descriptorUnknown, "no enabled descriptor for op " ++ quoted a.opId ++
      " on connector " ++ quoted a.connectorId⟩
  | some descriptor =>
    -- params that cannot be checked against the op's schema are refused
    match refuseUnvalidatableParams a reads with
    | some refusal => .error refusal
    | none =>
      match classifySatelliteTier P.isSafeWrite descriptor.safetyLevel.value a.opId with
      | .excluded =>
        .error ⟨.opNotSafe, "op " ++ quoted a.opId ++ " has safety_level " ++
          quoted descriptor.safetyLevel.value ++ "; dangerous/destructive ops and safe writes " ++
          "are never minted to a satellite"⟩
      | .remoteWrite => .ok (.checkRunner a descriptor.safetyLevel)
      | .safe =>
        -- a safe op still asks the policy gate, and only auto-execute is minted
        let ruling := policyGate reads.policy (a.policyCall reads descriptor)
        if ruling.verdict = .autoExecute then .ok (.enqueue a descriptor.safetyLevel)
        else
          let reason := match ruling.reason with
            | some reason => if reason = "" then none else some reason
            | none => none
          .error ⟨if ruling.verdict = .needsApproval then .needsApproval else .policyDenied,
            reason.getD ("policy gate returned " ++ quoted ruling.verdict.value ++
              ", not auto-execute")⟩

def noApprovalReason (opId : String) : String :=
  "remote-write op " ++ quoted opId ++ " refused: no committed, unconsumed approval " ++
    "binding for this (op, target, params); the caution tier mints only " ++
    "against a human-approved ApprovalRequest (mechanism 1)"

def oldReleaseReason (opId : String) (requestId : Nat) : String :=
  "remote-write op " ++ quoted opId ++ " refused: approval " ++ toString requestId ++
    " was made under an older MEHO release; MEHO was updated, so ask again"

def alreadyConsumedReason (opId : String) (requestId : Nat) : String :=
  "remote-write op " ++ quoted opId ++ " refused: the binding approval " ++
    toString requestId ++ " was already consumed by a concurrent mint"

/-- The first two checks of `_screen_remote_write`: the approval with its release, the key. -/
def screenApproval (inp : MintInp) (w : MintWorld P.crypto.SigningKey) (a : MintArgs)
    (level : SafetyLevel) : Outcome P.crypto.SigningKey :=
  match findRemoteWriteApproval P.approvals w.approvals.state.store a.call with
  | none => .refused ⟨.remoteWriteGateUnsatisfied, noApprovalReason a.opId⟩
  | some (requestId, approval) =>
    if approvalReleaseChanged inp.runningReleaseId approval then
      .refused ⟨.remoteWriteGateUnsatisfied, oldReleaseReason a.opId requestId⟩
    else
      match loadSigningKey P.crypto inp.signingKey with
      | .error text =>
        .refused ⟨.remoteWriteSigningUnavailable,
          "remote-write op " ++ quoted a.opId ++ " refused: " ++ text⟩
      | .ok key => .goes (.checkAllowlist a level requestId approval key)

/-- The last check of `_screen_remote_write`. -/
def screenAllowlist (w : MintWorld P.crypto.SigningKey) (a : MintArgs) (level : SafetyLevel)
    (requestId : Nat) (approval : ApprovalRequest) (key : P.crypto.SigningKey) :
    Outcome P.crypto.SigningKey :=
  match evaluateRemoteWriteGate a.opId
    (w.loadRunnerAllowlist a.operator.tenantId a.runnerId) a.targetScope (some a.runnerId) with
  | .error reason => .refused ⟨.remoteWriteNotAllowlisted, reason⟩
  | .ok () => .goes (.claim a level requestId approval key)

/-- The rest of the transaction: the approval is consumed and the signed command inserted, or
neither. -/
def claimStep (inp : MintInp) (w : MintWorld P.crypto.SigningKey) (a : MintArgs)
    (level : SafetyLevel) (requestId : Nat) (approval : ApprovalRequest)
    (key : P.crypto.SigningKey) : Outcome P.crypto.SigningKey :=
  match consumeRemoteWriteApproval inp.now requestId approval w.approvals.state.store with
  | none => .refused ⟨.remoteWriteGateUnsatisfied, alreadyConsumedReason a.opId requestId⟩
  | some store =>
    .mints ⟨⟨store, w.approvals.state.procs⟩,
        w.approvals.events ++ [.minted requestId a.call.call]⟩
      (finalizeMint P a level w.audit.length (some key) inp.now)
      (mintAuditRow P a w.queue.commands.length (some requestId) true inp.now) (some requestId)

/-- One step of a mint. -/
def mintStep (inp : MintInp) (w : MintWorld P.crypto.SigningKey) :
    MintProc P.crypto.SigningKey → Outcome P.crypto.SigningKey
  | .enqueue a level =>
    .mints w.approvals (finalizeMint P a level w.audit.length none inp.now)
      (mintAuditRow P a w.queue.commands.length none false inp.now) none
  | .checkRunner a level =>
    if w.queue.revoked a.operator.tenantId a.runnerId then
      .refused ⟨.runnerRevoked, "runner " ++ quoted a.runnerId ++ " is revoked; no remote-write " ++
        "capability is minted to a revoked runner"⟩
    else .goes (.findApproval a level)
  | .findApproval a level => screenApproval P inp w a level
  | .checkAllowlist a level requestId approval key =>
    screenAllowlist P w a level requestId approval key
  | .claim a level requestId approval key => claimStep P inp w a level requestId approval key
  | .done => .goes .done

/-! ## The machine -/

/-- One action: an action of the approval queue or of the command queue, an edit of the
allowlists, a new mint, a step of one, or the end of one. -/
inductive MintAct where
  | approval (act : Approval.Act)
  | queue (act : Gateway.Act)
  | editAllowlist (rows : List AllowRow)
  | mint (a : MintArgs) (reads : MintReads)
  | advance (pid : Nat) (inp : MintInp)
  | crash (pid : Nat)

/-- How a mint ended. -/
inductive MintEvent where
  | minted (a : MintArgs) (level : SafetyLevel) (commandId : Nat) (approval : Option Nat)
  | refused (a : MintArgs) (refusal : Refusal)

/-- The approval a minted command is bound to. -/
def MintEvent.bound : MintEvent → Option Nat
  | .minted _ _ _ approval => approval
  | .refused _ _ => none

def MintEvent.isMinted : MintEvent → Bool
  | .minted .. => true
  | .refused .. => false

/-- The call and the level of a mint that is under way. -/
def MintProc.about {K : Type} : MintProc K → Option (MintArgs × SafetyLevel)
  | .enqueue a level => some (a, level)
  | .checkRunner a level => some (a, level)
  | .findApproval a level => some (a, level)
  | .checkAllowlist a level _ _ _ => some (a, level)
  | .claim a level _ _ _ => some (a, level)
  | .done => none

/-- The end of a step, written to the tables. -/
def MintWorld.settle {K : Type} (w : MintWorld K) (pid : Nat) (about : MintArgs × SafetyLevel) :
    Outcome K → MintWorld K × List MintEvent
  | .refused r => ({ w with mints := w.mints.set pid .done }, [.refused about.1 r])
  | .goes p => ({ w with mints := w.mints.set pid p }, [])
  | .mints approvals command audit approval =>
    ({ w with
        approvals := approvals
        queue := { w.queue with commands := w.queue.commands ++ [command] }
        audit := w.audit ++ [audit]
        mints := w.mints.set pid .done },
      [.minted about.1 about.2 w.queue.commands.length approval])

/-- One action. Commands are enqueued by mints alone, and approvals consumed for mints by these
mints alone. -/
def mintWorldStep (w : MintWorld P.crypto.SigningKey) :
    MintAct → MintWorld P.crypto.SigningKey × List MintEvent
  | .approval act =>
    match act with
    | .mint _ => (w, [])
    | act => ({ w with approvals := (Approval.queue P.approvals).next w.approvals act }, [])
  | .queue act =>
    match act with
    | .enqueue _ _ => (w, [])
    | act => ({ w with queue := (worldStep (paramsDigest P.crypto) w.queue act).1 }, [])
  | .editAllowlist rows => ({ w with allowlist := rows }, [])
  | .mint a reads =>
    match mintGatewayCommand P a reads with
    | .error refusal => (w, [.refused a refusal])
    | .ok p => ({ w with mints := w.mints ++ [p] }, [])
  | .advance pid inp =>
    match w.mints[pid]? with
    | none => (w, [])
    | some p =>
      match p.about with
      | none => (w, [])
      | some about => w.settle pid about (mintStep P inp w p)
  | .crash pid => ({ w with mints := w.mints.set pid .done }, [])

/-- The centre: the approval queue, the command queue, and the mints between them. -/
def mintMachine : Machine (MintWorld P.crypto.SigningKey) MintAct MintEvent :=
  ⟨⟨(Approval.queue P.approvals).begin_, ⟨[], [], []⟩, [], [], []⟩, mintWorldStep P⟩

/-! ## What a mint rests on -/

/-- The approval covers the call and nobody has used it. -/
structure Covers (a : MintArgs) (approval : ApprovalRequest) : Prop where
  tenantId : approval.tenantId = a.operator.tenantId
  opId : approval.opId = a.opId
  targetId : approval.targetId = a.targetId
  params : Approval.paramsHashMatches P.approvals.hashing a.params approval.paramsHash = true
  status : approval.status = .approved
  unused : approval.resumedAt = none

/-- The mint `pid` was asked for, and the ladder put the call in this tier; a safe one has the
policy gate's auto-execute. -/
def Asked (pid : Nat) (tier : SatelliteMintTier) (a : MintArgs) (level : SafetyLevel) :
    List MintAct → Prop :=
  Since fun before act => ((mintMachine P).after before).state.mints.length = pid ∧
    ∃ reads descriptor, act = .mint a reads ∧
    reads.descriptor = some descriptor ∧ descriptor.safetyLevel = level ∧
    reads.validation = .valid ∧
    classifySatelliteTier P.isSafeWrite level.value a.opId = tier ∧
    (tier = .safe →
      (policyGate reads.policy (a.policyCall reads descriptor)).verdict = .autoExecute)

/-- The mint `pid` stood at `p`, and took the step `act` from there. -/
def StepOf (pid : Nat) (p : MintProc P.crypto.SigningKey) (before : List MintAct)
    (act : MintAct) (inp : MintInp) : Prop :=
  act = .advance pid inp ∧ ((mintMachine P).after before).state.mints[pid]? = some p

/-- Then a step of the mint found the runner not to be revoked. -/
def RunnerCleared (pid : Nat) (a : MintArgs) (level : SafetyLevel) : List MintAct → Prop :=
  Since fun before act => (∃ inp, StepOf P pid (.checkRunner a level) before act inp) ∧
    ((mintMachine P).after before).state.queue.revoked a.operator.tenantId a.runnerId = false ∧
    Asked P pid .remoteWrite a level before

/-- Then its next step found an unused approval of the running release, and loaded the signing
key. -/
def ApprovalFound (pid : Nat) (a : MintArgs) (level : SafetyLevel) (requestId : Nat)
    (approval : ApprovalRequest) (key : P.crypto.SigningKey) : List MintAct → Prop :=
  Since fun before act => ∃ inp, StepOf P pid (.findApproval a level) before act inp ∧
    ((mintMachine P).after before).state.approvals.state.store.requests[requestId]? =
      some approval ∧
    Covers P a approval ∧
    approvalReleaseChanged inp.runningReleaseId approval = false ∧
    loadSigningKey P.crypto inp.signingKey = .ok key ∧
    RunnerCleared P pid a level before

/-- Then its next step found the operation on the target on the runner's allowlist. -/
def Allowlisted (pid : Nat) (a : MintArgs) (level : SafetyLevel) (requestId : Nat)
    (approval : ApprovalRequest) (key : P.crypto.SigningKey) : List MintAct → Prop :=
  Since fun before act =>
    (∃ inp, StepOf P pid (.checkAllowlist a level requestId approval key) before act inp) ∧
    (∃ entry ∈ ((mintMachine P).after before).state.loadRunnerAllowlist a.operator.tenantId
      a.runnerId, entry.admits a.opId a.targetScope = true) ∧
    ApprovalFound P pid a level requestId approval key before

/-- A safe command: asked for, cleared by the policy gate, and written alone. -/
structure SafeMint (acts : List MintAct) (pid : Nat) (w w' : MintWorld P.crypto.SigningKey)
    (a : MintArgs) (level : SafetyLevel) : Prop where
  asked : Asked P pid .safe a level acts
  row : ∃ now, w'.queue.commands =
    w.queue.commands ++ [finalizeMint P a level w.audit.length none now]
  approvals : w'.approvals = w.approvals

/-- A remote-write command: every check passed, and the step that writes the signed row is the
one that consumes the approval. -/
structure RemoteWriteMint (acts : List MintAct) (pid : Nat) (w w' : MintWorld P.crypto.SigningKey)
    (a : MintArgs) (level : SafetyLevel) (requestId : Nat) (approval : ApprovalRequest)
    (key : P.crypto.SigningKey) (now : Time) : Prop where
  allowlisted : Allowlisted P pid a level requestId approval key acts
  unused : w.approvals.state.store.requests[requestId]? = some approval
  covers : Covers P a approval
  consumed : ∃ r, w'.approvals.state.store.requests[requestId]? = some r ∧
    r.status = .approved ∧ r.resumedAt = some now
  row : w'.queue.commands =
    w.queue.commands ++ [finalizeMint P a level w.audit.length (some key) now]
  signed : (finalizeMint P a level w.audit.length (some key) now).signature =
    some (signRemoteWriteItem P.crypto key a.opId (paramsDigest P.crypto a.params) a.targetScope
      (finalizeMint P a level w.audit.length (some key) now).expiresAt)

/-- A step of a mint, not of one of the queues. -/
def MintAct.ofMint : MintAct → Bool
  | .mint .. | .advance .. | .crash .. => true
  | _ => false

/-- What one action does, after the actions before it. -/
structure Gated (acts : List MintAct) (act : MintAct) (w w' : MintWorld P.crypto.SigningKey)
    (es : List MintEvent) : Prop where
  rows : w'.queue.commands.length = w.queue.commands.length + es.countP (·.isMinted)
  minted : ∀ a level commandId approval, .minted a level commandId approval ∈ es →
    commandId = w.queue.commands.length ∧ ∃ pid inp, act = .advance pid inp ∧
      ((approval = none ∧ SafeMint P acts pid w w' a level) ∨
        ∃ requestId row key now, approval = some requestId ∧
          RemoteWriteMint P acts pid w w' a level requestId row key now)
  kept : act.ofMint = true → es.countP (·.isMinted) = 0 →
    w'.queue.commands = w.queue.commands ∧ w'.approvals = w.approvals

/-! ## What a process knows -/

/-- What the run so far has settled for the mint `pid` at this point. -/
def Knows (acts : List MintAct) (pid : Nat) : MintProc P.crypto.SigningKey → Prop
  | .enqueue a level => Asked P pid .safe a level acts
  | .checkRunner a level => Asked P pid .remoteWrite a level acts
  | .findApproval a level => RunnerCleared P pid a level acts
  | .checkAllowlist a level requestId approval key =>
    ApprovalFound P pid a level requestId approval key acts
  | .claim a level requestId approval key => Allowlisted P pid a level requestId approval key acts
  | .done => True

/-- The approval a mint has read covers its call, for as long as nobody uses it. -/
def HasRead (s : Approval.Store) : MintProc P.crypto.SigningKey → Prop
  | .checkAllowlist a _ requestId approval _ | .claim a _ requestId approval _ =>
    Approval.MintReads s (.mintClaim a.call requestId approval) ∧ Covers P a approval
  | _ => True

variable {P}

variable {p : MintProc P.crypto.SigningKey}

theorem Knows.snoc {acts : List MintAct} {pid : Nat} (h : Knows P acts pid p) (act : MintAct) :
    Knows P (acts ++ [act]) pid p := by
  cases p with
  | enqueue a level | checkRunner a level | findApproval a level
  | checkAllowlist a level requestId approval key | claim a level requestId approval key =>
      exact Since.snoc h act
  | done => trivial

/-- What is read stays read through every step on the request's file. -/
theorem HasRead.step {s s' : Approval.Store} (h : HasRead P s p)
    (hok : ∀ id, Approval.FileOk id (s.file id))
    (hf : ∀ id, Approval.FileStep id (s.file id) (s'.file id)) : HasRead P s' p := by
  cases p with
  | checkAllowlist a level requestId approval key | claim a level requestId approval key =>
      exact ⟨h.1.step hok hf, h.2⟩
  | _ => trivial

theorem refuseUnvalidatableParams_none {a : MintArgs} {reads : MintReads}
    (h : refuseUnvalidatableParams a reads = none) : reads.validation = .valid := by
  unfold refuseUnvalidatableParams at h
  cases hv : reads.validation with
  | valid => rfl
  | errors | unresolvableRef missingRef => rw [hv] at h; cases h

theorem mintGatewayCommand_knows {a : MintArgs} {reads : MintReads}
    (h : mintGatewayCommand P a reads = .ok p) (acts : List MintAct) (s : Approval.Store) :
    Knows P (acts ++ [.mint a reads]) ((mintMachine P).after acts).state.mints.length p ∧
      HasRead P s p := by
  unfold mintGatewayCommand at h
  split at h
  · cases h
  · rename_i descriptor hdescriptor
    split at h
    · cases h
    · rename_i hparams
      have hvalid := refuseUnvalidatableParams_none hparams
      split at h
      · cases h
      · rename_i htier
        cases h
        refine ⟨Since.last ⟨rfl, reads, descriptor, rfl, hdescriptor, rfl, hvalid, htier, ?_⟩, trivial⟩
        intro hsafe
        cases hsafe
      · rename_i htier
        simp only at h
        split at h
        · rename_i hverdict
          cases h
          exact ⟨Since.last ⟨rfl, reads, descriptor, rfl, hdescriptor, rfl, hvalid, htier,
            fun _ => hverdict⟩, trivial⟩
        · cases h

/-! ## One step of a mint -/

section Steps
variable {acts : List MintAct} {pid : Nat} {inp : MintInp} {a : MintArgs} {level : SafetyLevel}
  {p' : MintProc P.crypto.SigningKey}

theorem screenApproval_knows
    (h : screenApproval P inp ((mintMachine P).after acts).state a level = .goes p')
    (hp : ((mintMachine P).after acts).state.mints[pid]? = some (.findApproval a level))
    (hk : RunnerCleared P pid a level acts) :
    Knows P (acts ++ [.advance pid inp]) pid p' ∧
      HasRead P ((mintMachine P).after acts).state.approvals.state.store p' := by
  unfold screenApproval at h
  split at h
  · cases h
  · rename_i requestId approval hfound
    obtain ⟨hrow, htenant, hop, hparams, hstatus, hunused, htarget⟩ :=
      Approval.findRemoteWriteApproval_some _ _ hfound
    have hcovers : Covers P a approval :=
      ⟨htenant, hop, htarget.trans a.call_targetId, hparams, hstatus, hunused⟩
    split at h
    · cases h
    · rename_i hrelease
      split at h
      · cases h
      · rename_i key hkey
        cases h
        refine ⟨Since.last ⟨inp, ⟨rfl, hp⟩, hrow, hcovers, ?_, hkey, hk⟩, ?_, hcovers⟩
        · simpa using hrelease
        · exact ⟨approval, hrow, hstatus, fun _ => rfl⟩

theorem screenAllowlist_knows {requestId : Nat} {approval : ApprovalRequest}
    {key : P.crypto.SigningKey}
    (h : screenAllowlist P ((mintMachine P).after acts).state a level requestId approval key =
      .goes p')
    (hp : ((mintMachine P).after acts).state.mints[pid]? =
      some (.checkAllowlist a level requestId approval key))
    (hk : ApprovalFound P pid a level requestId approval key acts)
    (hr : HasRead P ((mintMachine P).after acts).state.approvals.state.store
      (.checkAllowlist a level requestId approval key)) :
    Knows P (acts ++ [.advance pid inp]) pid p' ∧
      HasRead P ((mintMachine P).after acts).state.approvals.state.store p' := by
  unfold screenAllowlist at h
  split at h
  · cases h
  · rename_i hgate
    cases h
    exact ⟨Since.last ⟨⟨inp, rfl, hp⟩, evaluateRemoteWriteGate_ok hgate, hk⟩, hr⟩

/-- A step that goes on has settled the next check. -/
theorem mintStep_goes {p : MintProc P.crypto.SigningKey}
    (h : mintStep P inp ((mintMachine P).after acts).state p = .goes p')
    (hp : ((mintMachine P).after acts).state.mints[pid]? = some p) (hk : Knows P acts pid p)
    (hr : HasRead P ((mintMachine P).after acts).state.approvals.state.store p) :
    Knows P (acts ++ [.advance pid inp]) pid p' ∧
      HasRead P ((mintMachine P).after acts).state.approvals.state.store p' := by
  cases p with
  | enqueue a level => cases h
  | checkRunner a level =>
    simp only [mintStep] at h
    split at h
    · cases h
    · rename_i hrevoked
      cases h
      exact ⟨Since.last ⟨⟨inp, rfl, hp⟩, by simpa using hrevoked, hk⟩, trivial⟩
  | findApproval a level => exact screenApproval_knows h hp hk
  | checkAllowlist a level requestId approval key => exact screenAllowlist_knows h hp hk hr
  | claim a level requestId approval key =>
    simp only [mintStep, claimStep] at h
    split at h <;> cases h
  | done =>
    cases h
    exact ⟨trivial, trivial⟩

/-- The two steps that write a command. -/
theorem mintStep_mints {w : MintWorld P.crypto.SigningKey} {p : MintProc P.crypto.SigningKey}
    {approvals : Config Approval.World Approval.Event} {command : GatewayCommand}
    {audit : GatewayAuditRow} {approval : Option Nat}
    (h : mintStep P inp w p = .mints approvals command audit approval) :
    (∃ a level, p = .enqueue a level ∧ approvals = w.approvals ∧
      command = finalizeMint P a level w.audit.length none inp.now ∧ approval = none) ∨
    ∃ a level requestId row key store, p = .claim a level requestId row key ∧
      consumeRemoteWriteApproval inp.now requestId row w.approvals.state.store = some store ∧
      approvals = ⟨⟨store, w.approvals.state.procs⟩,
        w.approvals.events ++ [.minted requestId a.call.call]⟩ ∧
      command = finalizeMint P a level w.audit.length (some key) inp.now ∧
      approval = some requestId := by
  cases p with
  | enqueue a level =>
    cases h
    exact .inl ⟨a, level, rfl, rfl, rfl, rfl⟩
  | checkRunner a level =>
    simp only [mintStep] at h
    split at h <;> cases h
  | findApproval a level =>
    simp only [mintStep, screenApproval] at h
    split at h
    · cases h
    · split at h
      · cases h
      · split at h <;> cases h
  | checkAllowlist a level requestId row key =>
    simp only [mintStep, screenAllowlist] at h
    split at h <;> cases h
  | claim a level requestId row key =>
    simp only [mintStep, claimStep] at h
    split at h
    · cases h
    · rename_i store hconsume
      cases h
      exact .inr ⟨a, level, requestId, row, key, store, rfl, hconsume, rfl, rfl, rfl⟩
  | done => cases h

/-- The approval a claim consumes is the row it read, until then unused. -/
theorem consume_reads {s s' : Approval.Store} {requestId : Nat} {row : ApprovalRequest}
    {key : P.crypto.SigningKey} {now : Time}
    (hr : HasRead P s (.claim a level requestId row key))
    (h : consumeRemoteWriteApproval now requestId row s = some s') :
    s.requests[requestId]? = some row ∧
      ∃ r, s'.requests[requestId]? = some r ∧ r.status = .approved ∧ r.resumedAt = some now := by
  obtain ⟨⟨r, hrow, hstatus, hsame⟩, hcovers⟩ := hr
  obtain ⟨r', hrow', hunused, rfl⟩ := Approval.consumeRemoteWriteApproval_some h
  rw [hrow] at hrow'
  cases hrow'
  obtain rfl := hsame hunused
  refine ⟨hrow, r.claimedAt now, ?_, hstatus, rfl⟩
  rw [← Approval.file_row, Approval.mint_file_self hrow]

end Steps

/-! ## One action -/

variable (P) in
/-- What an action does to the world, and what it shows. -/
inductive MintMove (w : MintWorld P.crypto.SigningKey) (act : MintAct) :
    MintWorld P.crypto.SigningKey → List MintEvent → Prop where
  | idle : MintMove w act w []
  | approval {a : Approval.Act} (hact : act = .approval a) :
      MintMove w act { w with approvals := (Approval.queue P.approvals).next w.approvals a } []
  | queue {a : Gateway.Act} (hact : act = .queue a) (hne : ∀ args now, a ≠ .enqueue args now) :
      MintMove w act { w with queue := (worldStep (paramsDigest P.crypto) w.queue a).1 } []
  | allowlist (rows : List AllowRow) : MintMove w act { w with allowlist := rows } []
  | turnedAway (a : MintArgs) (refusal : Refusal) : MintMove w act w [.refused a refusal]
  | started {a : MintArgs} {reads : MintReads} {p : MintProc P.crypto.SigningKey}
      (hact : act = .mint a reads) (hp : mintGatewayCommand P a reads = .ok p) :
      MintMove w act { w with mints := w.mints ++ [p] } []
  | settled {pid : Nat} {inp : MintInp} {p : MintProc P.crypto.SigningKey}
      {about : MintArgs × SafetyLevel} (hact : act = .advance pid inp)
      (hp : w.mints[pid]? = some p) (habout : p.about = some about) :
      MintMove w act (w.settle pid about (mintStep P inp w p)).1
        (w.settle pid about (mintStep P inp w p)).2
  | crashed (pid : Nat) : MintMove w act { w with mints := w.mints.set pid .done } []

theorem mintWorldStep_move (w : MintWorld P.crypto.SigningKey) (act : MintAct) :
    MintMove P w act (mintWorldStep P w act).1 (mintWorldStep P w act).2 := by
  cases act with
  | approval a =>
    simp only [mintWorldStep]
    split
    · exact .idle
    · exact .approval rfl
  | queue a =>
    simp only [mintWorldStep]
    split
    · exact .idle
    · rename_i hne
      exact .queue rfl fun args now heq => hne args now heq
  | editAllowlist rows => exact .allowlist rows
  | mint a reads =>
    simp only [mintWorldStep]
    split
    · exact .turnedAway a _
    · rename_i p hp
      exact .started rfl hp
  | advance pid inp =>
    simp only [mintWorldStep]
    split
    · exact .idle
    · rename_i p hp
      split
      · exact .idle
      · rename_i about habout
        exact .settled rfl hp habout
  | crash pid => exact .crashed pid

/-- The table is as it was. -/
theorem Gated.quiet {acts : List MintAct} {act : MintAct} {w w' : MintWorld P.crypto.SigningKey}
    {es : List MintEvent} (hes : ∀ e ∈ es, e.isMinted = false)
    (hcommands : w'.queue.commands = w.queue.commands)
    (happrovals : act.ofMint = true → w'.approvals = w.approvals) : Gated P acts act w w' es := by
  have hnone : es.countP (·.isMinted) = 0 := by
    rw [List.countP_eq_zero]
    intro e he
    simp [hes e he]
  refine ⟨?_, ?_, fun hof _ => ⟨hcommands, happrovals hof⟩⟩
  · rw [hcommands, hnone, Nat.add_zero]
  · intro a level commandId approval hmem
    exact absurd (hes _ hmem) (by simp [MintEvent.isMinted])

theorem settle_gated {acts : List MintAct} {pid : Nat} {inp : MintInp}
    {about : MintArgs × SafetyLevel} (habout : p.about = some about) (hk : Knows P acts pid p)
    (hr : HasRead P ((mintMachine P).after acts).state.approvals.state.store p) :
    Gated P acts (.advance pid inp) ((mintMachine P).after acts).state
      (((mintMachine P).after acts).state.settle pid about
        (mintStep P inp ((mintMachine P).after acts).state p)).1
      (((mintMachine P).after acts).state.settle pid about
        (mintStep P inp ((mintMachine P).after acts).state p)).2 := by
  cases hout : mintStep P inp ((mintMachine P).after acts).state p with
  | refused r => exact .quiet (by simp [MintWorld.settle, MintEvent.isMinted]) rfl fun _ => rfl
  | goes p' => exact .quiet (by simp [MintWorld.settle]) rfl fun _ => rfl
  | mints approvals command audit approval =>
    refine ⟨by simp [MintWorld.settle, MintEvent.isMinted], ?_, ?_⟩
    · intro a level commandId approval' hmem
      obtain ⟨rfl, rfl, rfl, rfl⟩ : a = about.1 ∧ level = about.2 ∧
          commandId = ((mintMachine P).after acts).state.queue.commands.length ∧
          approval' = approval := by
        simpa [MintWorld.settle] using hmem
      refine ⟨rfl, pid, inp, rfl, ?_⟩
      rcases mintStep_mints hout with ⟨a, level, rfl, rfl, rfl, rfl⟩ |
        ⟨a, level, requestId, row, key, store, rfl, hconsume, rfl, rfl, rfl⟩
      · cases habout
        exact .inl ⟨rfl, hk, ⟨inp.now, rfl⟩, rfl⟩
      · cases habout
        obtain ⟨hrow, hconsumed⟩ := consume_reads hr hconsume
        exact .inr ⟨requestId, row, key, inp.now, rfl, hk, hrow, hr.2, hconsumed, rfl, rfl⟩
    · intro _ hnone
      simp [MintWorld.settle, MintEvent.isMinted] at hnone

variable (P) in
/-- The invariant of a run. An approval that is bound to a command is used for good. -/
structure MintInv (acts : List MintAct) : Prop where
  exclusive : Approval.Exclusive ((mintMachine P).after acts).state.approvals
  knows : ∀ pid p, ((mintMachine P).after acts).state.mints[pid]? = some p → Knows P acts pid p
  hasRead : ∀ p ∈ ((mintMachine P).after acts).state.mints,
    HasRead P ((mintMachine P).after acts).state.approvals.state.store p
  bound : ∀ id, ((mintMachine P).after acts).events.countP (·.bound = some id) = 0 ∨
    ((mintMachine P).after acts).events.countP (·.bound = some id) = 1 ∧
      ∃ r, ((mintMachine P).after acts).state.approvals.state.store.requests[id]? = some r ∧
        r.resumedAt.isSome = true

section
variable {acts : List MintAct} (h : MintInv P acts) (act : MintAct)
include h act

theorem MintInv.gated :
    Gated P acts act ((mintMachine P).after acts).state
      (mintWorldStep P ((mintMachine P).after acts).state act).1
      (mintWorldStep P ((mintMachine P).after acts).state act).2 := by
  have hmove := mintWorldStep_move ((mintMachine P).after acts).state act
  generalize mintWorldStep P ((mintMachine P).after acts).state act = out at hmove ⊢
  obtain ⟨w', es⟩ := out
  cases hmove with
  | idle | allowlist rows | started hact hp | crashed pid => exact .quiet (by simp) rfl fun _ => rfl
  | approval hact =>
    subst hact
    exact .quiet (by simp) rfl fun hof => by cases hof
  | queue hact hne =>
    subst hact
    exact ⟨worldStep_length _ _ hne, by simp, fun hof => by cases hof⟩
  | turnedAway a refusal => exact .quiet (by simp [MintEvent.isMinted]) rfl fun _ => rfl
  | settled hact hp habout =>
    subst hact
    exact settle_gated habout (h.knows _ _ hp) (h.hasRead _ (List.mem_of_getElem? hp))

/-! ## Every run -/

/-- What one action does to the approvals: a step on every file, and the queue's invariant. -/
theorem MintInv.approvals :
    (∀ id, Approval.FileStep id
      (((mintMachine P).after acts).state.approvals.state.store.file id)
      (((mintMachine P).after (acts ++ [act])).state.approvals.state.store.file id)) ∧
    Approval.Exclusive ((mintMachine P).after (acts ++ [act])).state.approvals := by
  rw [Machine.after_snoc]
  have hstay : (∀ id, Approval.FileStep id
      (((mintMachine P).after acts).state.approvals.state.store.file id)
      (((mintMachine P).after acts).state.approvals.state.store.file id)) ∧
      Approval.Exclusive ((mintMachine P).after acts).state.approvals :=
    ⟨fun _ => .of_eq rfl, h.exclusive⟩
  change (∀ id, Approval.FileStep id _ ((mintWorldStep P _ _).1.approvals.state.store.file id)) ∧
    Approval.Exclusive (mintWorldStep P _ _).1.approvals
  have hmove := mintWorldStep_move ((mintMachine P).after acts).state act
  generalize mintWorldStep P ((mintMachine P).after acts).state act = out at hmove ⊢
  obtain ⟨w', es⟩ := out
  cases hmove with
  | approval hact =>
    exact ⟨Approval.next_file P.approvals h.exclusive _,
      Approval.exclusive_next P.approvals _ _ h.exclusive⟩
  | @settled pid inp p about hact hp habout =>
    cases hout : mintStep P inp ((mintMachine P).after acts).state p with
    | refused r => exact hstay
    | goes p' => exact hstay
    | mints approvals command audit approval =>
      rcases mintStep_mints hout with ⟨a, level, rfl, rfl, -, -⟩ |
        ⟨a, level, requestId, row, key, store, rfl, hconsume, rfl, -, -⟩
      · exact hstay
      · have hread := h.hasRead _ (List.mem_of_getElem? hp)
        exact h.exclusive.consume hread.1 hconsume
  | idle | queue hact hne | allowlist rows | turnedAway a refusal | started hact hp | crashed pid =>
      exact hstay

/-- Every process after an action is one from before, or stands where this action took it. -/
theorem MintInv.procs {i : Nat}
    (hp : ((mintMachine P).after (acts ++ [act])).state.mints[i]? = some p) :
    ((mintMachine P).after acts).state.mints[i]? = some p ∨
      Knows P (acts ++ [act]) i p ∧
        HasRead P ((mintMachine P).after acts).state.approvals.state.store p := by
  rw [Machine.after_snoc] at hp
  change (mintWorldStep P ((mintMachine P).after acts).state act).1.mints[i]? = some p at hp
  have hmove := mintWorldStep_move ((mintMachine P).after acts).state act
  generalize mintWorldStep P ((mintMachine P).after acts).state act = out at hmove hp
  obtain ⟨w', es⟩ := out
  cases hmove with
  | idle | approval hact | queue hact hne | allowlist rows | turnedAway a refusal => exact .inl hp
  | started hact hq =>
    subst hact
    obtain hold | ⟨rfl, rfl⟩ := getElem?_snoc hp
    · exact .inl hold
    · exact .inr (mintGatewayCommand_knows hq acts _)
  | @settled pid inp q about hact hq habout =>
    subst hact
    have hmem := List.mem_of_getElem? hq
    cases hout : mintStep P inp ((mintMachine P).after acts).state q with
    | refused r | mints approvals command audit approval =>
      rw [hout] at hp
      obtain ⟨-, rfl⟩ | ⟨-, hold⟩ := getElem?_set_cases hp
      · exact .inr ⟨trivial, trivial⟩
      · exact .inl hold
    | goes p' =>
      rw [hout] at hp
      obtain ⟨rfl, rfl⟩ | ⟨-, hold⟩ := getElem?_set_cases hp
      · exact .inr (mintStep_goes hout hq (h.knows _ q hq) (h.hasRead q hmem))
      · exact .inl hold
  | crashed pid =>
    obtain ⟨-, rfl⟩ | ⟨-, hold⟩ := getElem?_set_cases hp
    · exact .inr ⟨trivial, trivial⟩
    · exact .inl hold

end

theorem mintWorldStep_events (w : MintWorld P.crypto.SigningKey) (act : MintAct) :
    (mintWorldStep P w act).2.length ≤ 1 := by
  have hmove := mintWorldStep_move w act
  generalize mintWorldStep P w act = out at hmove ⊢
  obtain ⟨w', es⟩ := out
  cases hmove with
  | @settled pid inp p about hact hp habout =>
    cases mintStep P inp w p <;> simp [MintWorld.settle]
  | _ => simp

/-- An event that binds an approval: it was unused before the step and is used after it. -/
theorem Gated.binds {acts : List MintAct} {act : MintAct} {w w' : MintWorld P.crypto.SigningKey}
    {es : List MintEvent} (h : Gated P acts act w w' es) {e : MintEvent} (he : e ∈ es) {id : Nat}
    (hid : e.bound = some id) :
    (∃ r, w.approvals.state.store.requests[id]? = some r ∧ r.resumedAt = none) ∧
      ∃ r, w'.approvals.state.store.requests[id]? = some r ∧ r.resumedAt.isSome = true := by
  cases e with
  | refused a refusal => cases hid
  | minted a level commandId approval =>
    obtain ⟨-, pid, inp, -, ⟨hnone, -⟩ | ⟨requestId, row, key, now, hsome, hmint⟩⟩ :=
      h.minted a level commandId approval he
    · rw [show approval = some id from hid] at hnone
      cases hnone
    · obtain rfl : requestId = id := by
        rw [show approval = some id from hid] at hsome
        exact (Option.some.inj hsome).symm
      obtain ⟨r, hr, -, hused⟩ := hmint.consumed
      exact ⟨⟨row, hmint.unused, hmint.covers.unused⟩, r, hr, by rw [hused]; rfl⟩

theorem MintInv.bound_next {acts : List MintAct} (h : MintInv P acts) (act : MintAct) (id : Nat) :
    ((mintMachine P).after (acts ++ [act])).events.countP (·.bound = some id) = 0 ∨
    ((mintMachine P).after (acts ++ [act])).events.countP (·.bound = some id) = 1 ∧
      ∃ r, ((mintMachine P).after (acts ++ [act])).state.approvals.state.store.requests[id]? =
        some r ∧ r.resumedAt.isSome = true := by
  have hgated := h.gated act
  have hfile := (h.approvals act).1 id
  have hone := mintWorldStep_events ((mintMachine P).after acts).state act
  rw [Machine.after_snoc] at hfile ⊢
  rw [Machine.next_events, List.countP_append]
  change Approval.FileStep id _
    ((mintWorldStep P ((mintMachine P).after acts).state act).1.approvals.state.store.file id)
    at hfile
  change (_ + (mintWorldStep P ((mintMachine P).after acts).state act).2.countP _ = 0) ∨
    (_ + (mintWorldStep P ((mintMachine P).after acts).state act).2.countP _ = 1) ∧
      ∃ r, (mintWorldStep P ((mintMachine P).after acts).state act).1.approvals.state.store.requests[
        id]? = some r ∧ _
  revert hgated hone hfile
  generalize mintWorldStep P ((mintMachine P).after acts).state act = out
  intro hgated hone hfile
  have hle : out.2.countP (fun e : MintEvent => decide (e.bound = some id)) ≤ 1 :=
    le_trans List.countP_le_length hone
  rcases Nat.eq_zero_or_pos (out.2.countP fun e : MintEvent => decide (e.bound = some id)) with
    hzero | hpos
  · rw [hzero, Nat.add_zero]
    rcases h.bound id with hnone | ⟨hcount, r, hr, hused⟩
    · exact .inl hnone
    · -- a used approval stays used
      obtain ⟨r', hr', hlater⟩ := hfile.later hr
      exact .inr ⟨hcount, r', hr', by rw [hlater.resumedAt hused]; exact hused⟩
  · obtain ⟨e, he, hid⟩ := List.countP_pos_iff.mp hpos
    obtain ⟨⟨r, hr, hunused⟩, hused⟩ := hgated.binds he (by simpa using hid)
    rcases h.bound id with hnone | ⟨-, r', hr', hused'⟩
    · refine .inr ⟨?_, hused⟩
      omega
    · -- the step needs an unused approval
      rw [hr] at hr'
      cases hr'
      rw [hunused] at hused'
      cases hused'

theorem mintInv_begin : MintInv P [] where
  exclusive := Approval.exclusive_begin P.approvals
  knows := fun pid p hp => by cases hp
  hasRead := fun p hp => by cases hp
  bound := fun _ => .inl rfl

theorem MintInv.next {acts : List MintAct} (h : MintInv P acts) (act : MintAct) :
    MintInv P (acts ++ [act]) := by
  obtain ⟨hfile, hexclusive⟩ := h.approvals act
  refine ⟨hexclusive, ?_, ?_, h.bound_next act⟩
  · intro pid p hp
    obtain hold | ⟨hnew, -⟩ := h.procs act hp
    · exact (h.knows pid p hold).snoc act
    · exact hnew
  · intro p hp
    obtain ⟨pid, hpid⟩ := List.mem_iff_getElem?.mp hp
    have hstep : HasRead P ((mintMachine P).after acts).state.approvals.state.store p := by
      obtain hold | ⟨-, hnew⟩ := h.procs act hpid
      · exact h.hasRead p (List.mem_of_getElem? hold)
      · exact hnew
    exact hstep.step h.exclusive.world.files hfile

theorem mintInv_history (acts : List MintAct) : MintInv P acts := by
  induction acts using List.reverseRecOn with
  | nil => exact mintInv_begin
  | append_singleton acts act ih => exact ih.next act

/-- **The mint gate.** In every run of mints beside the two queues: a command row is written only
by a step of a mint whose own earlier steps passed every check, safe or remote-write, and a remote write's approval is
consumed by the step that writes its signed row; a step of a mint that writes no row leaves
the commands and the approvals as they were; and no approval is bound to two commands. -/
theorem mint_gate (P : Centre) (acts : List MintAct) :
    (∀ before act later, acts = before ++ act :: later →
      Gated P before act ((mintMachine P).after before).state
        (mintWorldStep P ((mintMachine P).after before).state act).1
        (mintWorldStep P ((mintMachine P).after before).state act).2) ∧
    ∀ id, ((mintMachine P).after acts).events.countP (·.bound = some id) ≤ 1 := by
  refine ⟨fun before act _ _ => (mintInv_history before).gated act, ?_⟩
  intro id
  rcases (mintInv_history (P := P) acts).bound id with hnone | ⟨hone, -⟩
  · omega
  · omega

end Meho.Gateway.Mint
