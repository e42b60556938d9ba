import Meho.Lib.Tx
import Meho.Approval.Model
import Meho.Approval.Delegation

/- The three ways a person closes a waiting request: `approve_request`,
`reject_request`, `withdraw_request` (operations/approval_queue.py), with the
sign-in rules of auth/approval_sign_in.py and auth/fresh_sign_in.py.

Each is one transaction over the tables. The row is loaded under its lock, so a
decision is one atomic step. Every reading of the clock is an argument: the
code reads it again for each check, and nothing makes two readings equal.

What is proved about each: `..._raisesClean`, an error finds the tables as they
were; `..._ok`, what a committed decision checked and wrote.

Correspondence: `_write_audit_row` ↔ `auditRow`; what is not listed keeps its name. -/
namespace Meho.Approval
open Meho.Lib

/-- What one installation fixes: its digests, the registered role floors and the sensitivity
 class of each operation. -/
structure Deployment where
  hashing : Hashing
  floors : RoleFloors
  classifyOp : String → String

/-- The failures of the queue. -/
inductive ApprovalError where
  | approvalNotFound (requestId : Nat)
  | requestAlreadyDecided (requestId : Nat) (status : Status)
  | requestExpired (requestId : Nat)
  | paramsMismatch (requestId : Nat)
  | idempotencyKeyConflict (requestId : Nat)
  | previewBindingMissing (requestId : Nat)
  | signInReused (requestId : Nat)
  | signInTooOld (requestId : Nat) (maxAgeSeconds : Int)
  | selfApprovalForbidden (requestId : Nat) (principalSub : String) (highRisk : Bool)
      (webClickAllowed : Bool)
  | unauthorizedApproval (operatorSub : String) (role : TenantRole)
  | approvalGroupForbidden (requestId : Nat) (operatorSub : String) (role : TenantRole)
      (safetyLevel : String)
  | nonHumanApproval (operatorSub : String) (principalKind : PrincipalKind)
  | approvalRoleFloor (requestId : Nat) (operatorSub : String) (role : TenantRole)
      (denial : String)
  | withdrawForbidden (requestId : Nat) (principalSub : String)
  | delegatedReasonInvalid (problem : String)
  | delegatedDecisionForbidden (requestId : Nat) (operatorSub : String) (instructedBy : String)
  deriving DecidableEq, Repr

/-- The rule that allowed an approval. -/
inductive ApprovalRule where
  | saOperatorSelfApproval
  | breakGlassSelfApproval
  | saOperatorOrAdmin
  | reviewer
  | tokenCallSelfApproval
  deriving DecidableEq, Repr

def ApprovalRule.value : ApprovalRule → String
  | .saOperatorSelfApproval => "sa_operator_self_approval"
  | .breakGlassSelfApproval => "break_glass_self_approval"
  | .saOperatorOrAdmin => "sa_operator_or_admin"
  | .reviewer => "reviewer"
  | .tokenCallSelfApproval => "token_call_self_approval"

/-! ## Audit rows -/

/-- The audit row of one queue event. `extra` goes over the common payload. -/
def auditRow (eventClass : AuditEventClass) (operator : Operator) (requestId : Nat)
    (request : ApprovalRequest) (path : AuditPath) (statusCode : Nat) (now : Time)
    (extra : Dict) : AuditRow where
  eventClass := eventClass
  path := path
  statusCode := statusCode
  occurredAt := now
  operatorSub := operator.sub
  tenantId := operator.tenantId
  targetId := request.targetId
  requestId := requestId
  workRef := request.workRef
  payload := dictUpdate
    ([("approval_request_id", .int requestId), ("op_id", .str request.opId),
      ("connector_id", .str request.connectorId), ("principal_sub", .str request.principalSub),
      ("result_status", .str path.resultStatus)] ++
      (match operator.name with
        | some name => if name = "" then [] else [("principal_name", .str name)]
        | none => []) ++
      (if operator.roleFromPlatformAdmin then [("tenant_role_source", .str "platform_admin")]
        else []))
    extra

/-! ## Who may decide -/

def checkReviewerRole (operator : Operator) : Except ApprovalError Unit :=
  if !isHumanPrincipal operator then
    .error (.nonHumanApproval operator.sub operator.principalKind)
  else if operator.tenantRole = .readOnly ∧ operator.approver = false then
    .error (.unauthorizedApproval operator.sub operator.tenantRole)
  else .ok ()

/-- `_HIGH_RISK_TIERS`. -/
def highRiskTiers : List String := ["dangerous", "destructive"]

def isHighRisk (level : Option String) : Bool :=
  match level with
  | some level => highRiskTiers.contains level
  | none => false

/-- A `caution` change that waits only because it came with a token. -/
def requestWaitsOnlyForTokenCall (request : ApprovalRequest) : Bool :=
  dictGetStr request.proposedEffect "waits_because" = some "token_call" &&
    requestSafetyLevel request = some "caution"

/-- The rule of a self-approval, `none` when it is not one. -/
def checkSelfApproval (settings : Settings) (operator : Operator) (requestId : Nat)
    (request : ApprovalRequest) : Except ApprovalError (Option ApprovalRule) :=
  if operator.sub ≠ request.principalSub then .ok none
  else if operator.maySelfApprove then .ok (some .saOperatorSelfApproval)
  else
    -- a change that waits only because it came with a token: its sender may click it
    let tokenWait := requestWaitsOnlyForTokenCall request
    if tokenWait && operator.webSession then .ok (some .tokenCallSelfApproval)
    else
      -- the level is read from the stored effect; an effect without one counts as low risk
      let highRisk := isHighRisk (requestSafetyLevel request)
      if !highRisk && settings.approvalAllowSelfApproval then .ok (some .breakGlassSelfApproval)
      else .error (.selfApprovalForbidden requestId operator.sub highRisk tokenWait)

/-- The rule that lets the operator approve the request. -/
def checkApproverGroup (settings : Settings) (operator : Operator) (requestId : Nat)
    (request : ApprovalRequest) : Except ApprovalError ApprovalRule :=
  match checkSelfApproval settings operator requestId request with
  | .error e => .error e
  | .ok (some rule) => .ok rule
  | .ok none =>
    let level := requestSafetyLevel request
    if !isHighRisk level then .ok .reviewer
    else if operator.maySelfApprove || operator.tenantRole = .tenantAdmin then
      .ok .saOperatorOrAdmin
    else
      .error (.approvalGroupForbidden requestId operator.sub operator.tenantRole
        (level.getD "None"))

def checkApproverRoleFloor (floors : RoleFloors) (operator : Operator) (requestId : Nat)
    (request : ApprovalRequest) : Except ApprovalError Unit :=
  match roleFloorDenial floors request.opId operator.tenantRole with
  | some denial =>
    .error (.approvalRoleFloor requestId operator.sub operator.tenantRole denial)
  | none => .ok ()

def checkDestructivePreviewBinding (requestId : Nat) (request : ApprovalRequest) :
    Except ApprovalError Unit :=
  if isDestructive request && (request.previewHash.getD "" = "") then
    .error (.previewBindingMissing requestId)
  else .ok ()

/-! ## Sign-ins -/

inductive ApprovalChannel where
  | rest
  | web
  deriving DecidableEq, Repr

def ApprovalChannel.value : ApprovalChannel → String
  | .rest => "rest"
  | .web => "web"

inductive ApprovalMethod where
  | freshSignIn
  | oneTimeCode
  deriving DecidableEq, Repr

def ApprovalMethod.value : ApprovalMethod → String
  | .freshSignIn => "fresh_sign_in"
  | .oneTimeCode => "one_time_code"

/-- How a person proved they were present for one approve. -/
structure ApprovalAuth where
  channel : ApprovalChannel
  method : ApprovalMethod
  authTime : Int
  sid : Option String
  acr : Option String
  deriving DecidableEq, Repr

/-- The hash that names one sign-in of `sub`. -/
def ApprovalAuth.signInKey (H : Hashing) (auth : ApprovalAuth) (sub : String) : String :=
  H.signIn (sub ++ "\n" ++ auth.sid.getD "" ++ "\n" ++ toString auth.authTime)

/-- The `approval_auth` block of the decision row. -/
def ApprovalAuth.auditPayload (H : Hashing) (auth : ApprovalAuth) (sub : String)
    (singleUse : Bool) : Json :=
  .obj ([("channel", Json.str auth.channel.value), ("method", .str auth.method.value),
    ("auth_time", .int auth.authTime),
    ("acr", match auth.acr with | some acr => .str acr | none => .null),
    ("sign_in_key", .str (auth.signInKey H sub))] ++
    if singleUse then [("single_use", Json.bool true)] else [])

def clockSkewSeconds : Int := 60

/-- How old a sign-in may be to approve a request of this risk level, in seconds. -/
def approvalSignInMaxAge (settings : Settings) (destructive : Bool) : Int :=
  if destructive then settings.perActionSignInMaxAgeSeconds
  else settings.freshSignInMaxAgeSeconds

def longestSignInMaxAge (settings : Settings) : Int :=
  max (approvalSignInMaxAge settings false) (approvalSignInMaxAge settings true)

def hasFreshSignIn (operator : Operator) (now : Time) (maxAgeSeconds : Int) : Bool :=
  match operator.authTime with
  | none => false
  | some authTime =>
    let age := now - seconds authTime
    isHumanPrincipal operator && decide (seconds (-clockSkewSeconds) ≤ age) &&
      decide (age ≤ seconds maxAgeSeconds)

def askedForCredentials (operator : Operator) : Bool :=
  match operator.acr with
  | none => false
  | some acr => acr ≠ "0"

def isApprovalSignIn (operator : Operator) (settings : Settings) : Bool :=
  settings.keycloakCliApproveClientId ≠ "" && isHumanPrincipal operator &&
    operator.azp = some settings.keycloakCliApproveClientId

/-- The proof for a sign-in that passed the checks. -/
def approvalAuth (operator : Operator) (settings : Settings) (channel : ApprovalChannel)
    (authTime : Int) : ApprovalAuth where
  channel := channel
  method :=
    match operator.acr with
    | some acr => if settings.approvalOneTimeCodeAcrValues.contains acr then .oneTimeCode
        else .freshSignIn
    | none => .freshSignIn
  authTime := authTime
  sid := operator.sid
  acr := operator.acr

/-- The proof for a token approve, `none` for the 401 challenge. -/
def checkFreshApprovalSignIn (operator : Operator) (settings : Settings) (now : Time) :
    Option ApprovalAuth :=
  match operator.authTime with
  | none => none
  | some authTime =>
    if isApprovalSignIn operator settings && askedForCredentials operator &&
        hasFreshSignIn operator now (longestSignInMaxAge settings) then
      some (approvalAuth operator settings .rest authTime)
    else none

/-- The proof for an approve in the web interface, `none` for the 401 challenge. -/
def checkFreshWebApprovalSignIn (operator : Operator) (settings : Settings) (now : Time) :
    Option ApprovalAuth :=
  match operator.authTime with
  | none => none
  | some authTime =>
    if askedForCredentials operator &&
        hasFreshSignIn operator now (longestSignInMaxAge settings) then
      some (approvalAuth operator settings .web authTime)
    else none

/-- The `approval_auth` block of an earlier decision row, when it names this sign-in. -/
def earlierUse (key : String) (row : AuditRow) : Option Dict :=
  match dictGet row.payload "approval_auth" with
  | some (.obj earlier) => if dictGetStr earlier "sign_in_key" = some key then some earlier else none
  | _ => none

/-- Whether an earlier use of the sign-in took it up for good. -/
def isSingleUse (earlier : Dict) : Bool := dictGet earlier "single_use" matches some (.bool true)

/-- The decision rows the scan for earlier uses of a sign-in reads. -/
def signInScan (s : Store) (sub : String) (since : Time) : List AuditRow :=
  s.audit.filter fun row =>
    row.operatorSub = sub && row.path = .decision && decide (since ≤ row.occurredAt)

/-- Check the sign-in's age and earlier uses; answer whether this use is its only one. The
second check runs under the sign-in's advisory lock. -/
def checkSignInUse (H : Hashing) (settings : Settings) (ageNow : Time) (requestId : Nat)
    (request : ApprovalRequest) (operator : Operator) (auth : ApprovalAuth) :
    Tx Store ApprovalError Bool := do
  let key := auth.signInKey H operator.sub
  let destructive := isDestructive request
  let maxAge := approvalSignInMaxAge settings destructive
  if ageNow - seconds auth.authTime > seconds maxAge then
    Tx.raise (.signInTooOld requestId maxAge)
  else do
    let s ← Tx.read
    -- no use of this sign-in can be older than the sign-in itself, less the allowed skew
    let since := seconds (auth.authTime - clockSkewSeconds - 1)
    let earlier := (signInScan s operator.sub since).filterMap (earlierUse key)
    if earlier.any fun use => destructive || isSingleUse use then
      Tx.raise (.signInReused requestId)
    else pure destructive

/-- An approve without a proof of presence (no production path) takes up no sign-in. -/
def signInStep (H : Hashing) (settings : Settings) (ageNow : Time) (requestId : Nat)
    (request : ApprovalRequest) (operator : Operator) (auth : Option ApprovalAuth) :
    Tx Store ApprovalError Bool :=
  match auth with
  | none => pure false
  | some auth => checkSignInUse H settings ageNow requestId request operator auth

/-! ## Approve, reject, withdraw -/

/-- The clock readings of one approve, in the order the code takes them. -/
structure ApproveClock where
  deadline : Time
  age : Time
  decided : Time
  audit : Time

/-- Load the row under its lock, or raise. -/
def loadForTenant (requestId tenantId : Nat) : Tx Store ApprovalError ApprovalRequest := do
  let s ← Tx.read
  match s.loadForTenant requestId tenantId with
  | none => Tx.raise (.approvalNotFound requestId)
  | some request => pure request

def checkPending (requestId : Nat) (request : ApprovalRequest) : Except ApprovalError Unit :=
  if request.status ≠ .pending then .error (.requestAlreadyDecided requestId request.status)
  else .ok ()

/-- The preconditions of an approve, most specific reason first. -/
def loadPendingForApproval (D : Deployment) (settings : Settings) (now : Time)
    (requestId : Nat) (operator : Operator) (params : Option Params) :
    Tx Store ApprovalError (ApprovalRequest × ApprovalRule) := do
  Tx.lift (checkReviewerRole operator)
  let request ← loadForTenant requestId operator.tenantId
  Tx.lift (checkPending requestId request)
  if deadlineHasPassed request now (some (resolveDefaultTtl settings)) then
    Tx.raise (.requestExpired requestId)
  else do
    let rule ← Tx.lift (checkApproverGroup settings operator requestId request)
    Tx.lift (checkApproverRoleFloor D.floors operator requestId request)
    -- an approve without params approves what is stored
    if (params.map fun p => paramsHashMatches D.hashing p request.paramsHash) = some false then
      Tx.raise (.paramsMismatch requestId)
    else do
      Tx.lift (checkDestructivePreviewBinding requestId request)
      pure (request, rule)

/-- The delegation of a reason, refused where the deployment does not allow one. -/
def checkDelegation (settings : Settings) (requestId : Nat) (operator : Operator)
    (reason : String) : Except ApprovalError (Option Delegation) :=
  match parseDelegation reason with
  | .error problem => .error (.delegatedReasonInvalid problem)
  | .ok none => .ok none
  | .ok (some delegation) =>
    if settings.approvalAllowDelegatedDecision then .ok (some delegation)
    else
      .error (.delegatedDecisionForbidden requestId operator.sub delegation.instructedBy)

def reasonExtra (reason : String) : Dict := if reason = "" then [] else [("reason", .str reason)]

def delegationExtra (delegation : Option Delegation) : Dict :=
  match delegation with
  | none => []
  | some d => [("delegation", d.toPayload)]

/-- The payload of an approve's decision row. -/
def approveExtra (H : Hashing) (operator : Operator) (request : ApprovalRequest)
    (rule : ApprovalRule) (reason : String) (auth : Option ApprovalAuth) (singleUse : Bool)
    (delegation : Option Delegation) : Dict :=
  [("decision", Json.str "approved"), ("reviewed_by", .str operator.sub),
    ("self_approved", .bool (operator.sub = request.principalSub)),
    ("approval_rule", .str rule.value)] ++ reasonExtra reason ++
    (match auth with
      | some auth => [("approval_auth", auth.auditPayload H operator.sub singleUse)]
      | none => []) ++ delegationExtra delegation

/-- The row an approve leaves. -/
def ApprovalRequest.approvedBy (request : ApprovalRequest) (operator : Operator) (now : Time) :
    ApprovalRequest :=
  { request with
    status := .approved, reviewedBy := some operator.sub, reviewedByName := operator.name,
    decidedAt := some now }

def approveRequest (D : Deployment) (settings : Settings) (clock : ApproveClock)
    (requestId : Nat) (operator : Operator) (params : Option Params) (reason : String)
    (auth : Option ApprovalAuth) : Tx Store ApprovalError (ApprovalRequest × ApprovalRule) := do
  let (request, rule) ←
    loadPendingForApproval D settings clock.deadline requestId operator params
  let delegation ← Tx.lift (checkDelegation settings requestId operator reason)
  let singleUse ← signInStep D.hashing settings clock.age requestId request operator auth
  Tx.modify fun s =>
    (s.updateRequest requestId fun r => r.approvedBy operator clock.decided).addAudit
      (auditRow .approvalDecision operator requestId request .decision 200 clock.audit
        (approveExtra D.hashing operator request rule reason auth singleUse delegation))
  pure (request.approvedBy operator clock.decided, rule)

/-- The row a reject leaves, before its run input is dropped. -/
def ApprovalRequest.rejectedBy (request : ApprovalRequest) (operator : Operator) (now : Time) :
    ApprovalRequest :=
  { request with
    status := .rejected, reviewedBy := some operator.sub, reviewedByName := operator.name,
    decidedAt := some now }

/-- `decidedNow` and `auditNow` are the readings for the row and for its audit row. -/
def rejectRequest (settings : Settings) (decidedNow auditNow : Time) (requestId : Nat)
    (operator : Operator) (reason : String) : Tx Store ApprovalError Unit := do
  Tx.lift (checkReviewerRole operator)
  let request ← loadForTenant requestId operator.tenantId
  Tx.lift (checkPending requestId request)
  let delegation ← Tx.lift (checkDelegation settings requestId operator reason)
  Tx.modify fun s =>
    ((s.updateRequest requestId fun r => r.rejectedBy operator decidedNow).endRunInput requestId
      request).addAudit
      (auditRow .approvalDecision operator requestId request .decision 403 auditNow
        ([("decision", Json.str "rejected"), ("reviewed_by", .str operator.sub)] ++
          reasonExtra reason ++ delegationExtra delegation))

/-- The row a withdrawal leaves, before its run input is dropped. -/
def ApprovalRequest.withdrawnFor (request : ApprovalRequest) (reason : String) (now : Time) :
    ApprovalRequest :=
  { request with
    status := .withdrawn, withdrawnAt := some now,
    withdrawReason := if reason = "" then none else some reason }

def checkSender (requestId : Nat) (operator : Operator) (request : ApprovalRequest) :
    Except ApprovalError Unit :=
  if operator.sub ≠ request.principalSub then .error (.withdrawForbidden requestId operator.sub)
  else .ok ()

def withdrawRequest (withdrawnNow auditNow : Time) (requestId : Nat) (operator : Operator)
    (reason : String) : Tx Store ApprovalError Unit := do
  let request ← loadForTenant requestId operator.tenantId
  Tx.lift (checkSender requestId operator request)
  Tx.lift (checkPending requestId request)
  Tx.modify fun s =>
    ((s.updateRequest requestId fun r => r.withdrawnFor reason withdrawnNow).endRunInput requestId
      request).addAudit
      (auditRow .approvalDecision operator requestId request .withdraw 200 auditNow
        ([("withdrawn_by", .str operator.sub)] ++ reasonExtra reason))

/-! ## An error finds the tables as they were -/

theorem loadForTenant_readOnly (requestId tenantId : Nat) :
    (loadForTenant requestId tenantId).ReadOnly := by
  refine Tx.ReadOnly.bind Tx.ReadOnly.read (fun s => ?_)
  cases s.loadForTenant requestId tenantId with
  | none => exact Tx.ReadOnly.raise _
  | some request => exact Tx.ReadOnly.pure _

theorem checkSignInUse_readOnly (H : Hashing) (settings : Settings) (ageNow : Time)
    (requestId : Nat) (request : ApprovalRequest) (operator : Operator) (auth : ApprovalAuth) :
    (checkSignInUse H settings ageNow requestId request operator auth).ReadOnly := by
  unfold checkSignInUse
  apply Tx.ReadOnly.ite
  · exact Tx.ReadOnly.raise _
  · refine Tx.ReadOnly.bind Tx.ReadOnly.read (fun s => ?_)
    exact Tx.ReadOnly.ite (Tx.ReadOnly.raise _) (Tx.ReadOnly.pure _)

theorem loadPendingForApproval_readOnly (D : Deployment) (settings : Settings) (now : Time)
    (requestId : Nat) (operator : Operator) (params : Option Params) :
    (loadPendingForApproval D settings now requestId operator params).ReadOnly := by
  unfold loadPendingForApproval
  refine Tx.ReadOnly.bind (Tx.ReadOnly.lift _) (fun _ => ?_)
  refine Tx.ReadOnly.bind (loadForTenant_readOnly _ _) (fun request => ?_)
  refine Tx.ReadOnly.bind (Tx.ReadOnly.lift _) (fun _ => ?_)
  refine Tx.ReadOnly.ite (Tx.ReadOnly.raise _) ?_
  refine Tx.ReadOnly.bind (Tx.ReadOnly.lift _) (fun rule => ?_)
  refine Tx.ReadOnly.bind (Tx.ReadOnly.lift _) (fun _ => ?_)
  refine Tx.ReadOnly.ite (Tx.ReadOnly.raise _) ?_
  exact Tx.ReadOnly.bind (Tx.ReadOnly.lift _) (fun _ => Tx.ReadOnly.pure _)

theorem signInStep_readOnly (H : Hashing) (settings : Settings) (ageNow : Time)
    (requestId : Nat) (request : ApprovalRequest) (operator : Operator)
    (auth : Option ApprovalAuth) :
    (signInStep H settings ageNow requestId request operator auth).ReadOnly := by
  cases auth with
  | none => exact Tx.ReadOnly.pure _
  | some auth => exact checkSignInUse_readOnly _ _ _ _ _ _ _

theorem approveRequest_raisesClean (D : Deployment) (settings : Settings) (clock : ApproveClock)
    (requestId : Nat) (operator : Operator) (params : Option Params) (reason : String)
    (auth : Option ApprovalAuth) :
    (approveRequest D settings clock requestId operator params reason auth).RaisesClean := by
  unfold approveRequest
  refine Tx.RaisesClean.bind (loadPendingForApproval_readOnly _ _ _ _ _ _) ?_
  rintro ⟨request, rule⟩
  refine Tx.RaisesClean.bind (Tx.ReadOnly.lift _) (fun delegation => ?_)
  refine Tx.RaisesClean.bind (signInStep_readOnly _ _ _ _ _ _ _) (fun singleUse => ?_)
  exact Tx.RaisesClean.modify_pure _ _

theorem rejectRequest_raisesClean (settings : Settings) (decidedNow auditNow : Time)
    (requestId : Nat) (operator : Operator) (reason : String) :
    (rejectRequest settings decidedNow auditNow requestId operator reason).RaisesClean := by
  unfold rejectRequest
  refine Tx.RaisesClean.bind (Tx.ReadOnly.lift _) (fun _ => ?_)
  refine Tx.RaisesClean.bind (loadForTenant_readOnly _ _) (fun request => ?_)
  refine Tx.RaisesClean.bind (Tx.ReadOnly.lift _) (fun _ => ?_)
  refine Tx.RaisesClean.bind (Tx.ReadOnly.lift _) (fun delegation => ?_)
  exact Tx.RaisesClean.modify _

theorem withdrawRequest_raisesClean (withdrawnNow auditNow : Time) (requestId : Nat)
    (operator : Operator) (reason : String) :
    (withdrawRequest withdrawnNow auditNow requestId operator reason).RaisesClean := by
  unfold withdrawRequest
  refine Tx.RaisesClean.bind (loadForTenant_readOnly _ _) (fun request => ?_)
  refine Tx.RaisesClean.bind (Tx.ReadOnly.lift _) (fun _ => ?_)
  refine Tx.RaisesClean.bind (Tx.ReadOnly.lift _) (fun _ => ?_)
  exact Tx.RaisesClean.modify _

/-! ## What a committed decision checked and wrote -/

variable {requestId : Nat} {s : Store} {request : ApprovalRequest}

theorem loadForTenant_ok {tenantId : Nat}
    (h : loadForTenant requestId tenantId s = (.ok request, s)) :
    s.loadForTenant requestId tenantId = some request := by
  obtain ⟨s₁, hread, hmatch⟩ := Tx.ReadOnly.read.bind_eq_ok h
  cases hread
  cases hload : s.loadForTenant requestId tenantId with
  | none => rw [hload] at hmatch; cases hmatch
  | some r => rw [hload] at hmatch; cases hmatch; rfl

theorem Store.loadForTenant_eq_some {tenantId : Nat}
    (h : s.loadForTenant requestId tenantId = some request) :
    s.requests[requestId]? = some request ∧ request.tenantId = tenantId := by
  obtain ⟨hr, ht⟩ := Option.filter_eq_some_iff.mp h
  exact ⟨hr, by simpa using ht⟩

theorem checkPending_ok (h : checkPending requestId request = .ok ()) :
    request.status = .pending := by
  unfold checkPending at h
  split at h
  · cases h
  · rename_i hp
    simpa using hp

/-- What every committed approve has passed, on the row as the lock showed it. -/
structure ApproveChecks (D : Deployment) (settings : Settings) (clock : ApproveClock)
    (requestId : Nat) (operator : Operator) (params : Option Params)
    (auth : Option ApprovalAuth) (s : Store) (request : ApprovalRequest) (rule : ApprovalRule)
    (singleUse : Bool) : Prop where
  loaded : s.requests[requestId]? = some request
  tenant : request.tenantId = operator.tenantId
  reviewer : checkReviewerRole operator = .ok ()
  pending : request.status = .pending
  inTime : deadlineHasPassed request clock.deadline (some (resolveDefaultTtl settings)) = false
  group : checkApproverGroup settings operator requestId request = .ok rule
  floor : checkApproverRoleFloor D.floors operator requestId request = .ok ()
  hash : ∀ p, params = some p → paramsHashMatches D.hashing p request.paramsHash = true
  binding : checkDestructivePreviewBinding requestId request = .ok ()
  signIn : ∀ a, auth = some a →
    checkSignInUse D.hashing settings clock.age requestId request operator a s =
      (.ok singleUse, s)

variable {D : Deployment} {settings : Settings} {operator : Operator} {params : Option Params}
    {rule : ApprovalRule}

theorem loadPendingForApproval_ok {now : Time}
    (h : loadPendingForApproval D settings now requestId operator params s = (.ok (request, rule), s)) :
    s.loadForTenant requestId operator.tenantId = some request ∧
    checkReviewerRole operator = .ok () ∧ request.status = .pending ∧
    deadlineHasPassed request now (some (resolveDefaultTtl settings)) = false ∧
    checkApproverGroup settings operator requestId request = .ok rule ∧
    checkApproverRoleFloor D.floors operator requestId request = .ok () ∧
    (∀ p, params = some p → paramsHashMatches D.hashing p request.paramsHash = true) ∧
    checkDestructivePreviewBinding requestId request = .ok () := by
  unfold loadPendingForApproval at h
  obtain ⟨_, hrole, h⟩ := (Tx.ReadOnly.lift _).bind_eq_ok h
  obtain ⟨r, hload, h⟩ := (loadForTenant_readOnly _ _).bind_eq_ok h
  obtain ⟨_, hpend, h⟩ := (Tx.ReadOnly.lift _).bind_eq_ok h
  split at h
  · cases h
  · rename_i htime
    obtain ⟨rl, hgroup, h⟩ := (Tx.ReadOnly.lift _).bind_eq_ok h
    obtain ⟨_, hfloor, h⟩ := (Tx.ReadOnly.lift _).bind_eq_ok h
    split at h
    · cases h
    · rename_i hparams
      obtain ⟨_, hbind, h⟩ := (Tx.ReadOnly.lift _).bind_eq_ok h
      cases h
      refine ⟨loadForTenant_ok hload, Tx.lift_eq_ok hrole, checkPending_ok (Tx.lift_eq_ok hpend),
        by simpa using htime, Tx.lift_eq_ok hgroup, Tx.lift_eq_ok hfloor, ?_, Tx.lift_eq_ok hbind⟩
      intro p hp
      subst hp
      simpa using hparams

variable {reason : String} {s' : Store}

theorem approveRequest_ok {clock : ApproveClock} {auth : Option ApprovalAuth} {r : ApprovalRequest}
    (h : approveRequest D settings clock requestId operator params reason auth s = (.ok (r, rule), s')) :
    ∃ request singleUse delegation,
      ApproveChecks D settings clock requestId operator params auth s request rule singleUse ∧
      r = request.approvedBy operator clock.decided ∧
      s' = (s.updateRequest requestId fun r => r.approvedBy operator clock.decided).addAudit
        (auditRow .approvalDecision operator requestId request .decision 200 clock.audit
          (approveExtra D.hashing operator request rule reason auth singleUse delegation)) := by
  unfold approveRequest at h
  obtain ⟨⟨request, rule'⟩, hload, h⟩ := (loadPendingForApproval_readOnly _ _ _ _ _ _).bind_eq_ok h
  obtain ⟨delegation, _, h⟩ := (Tx.ReadOnly.lift _).bind_eq_ok h
  obtain ⟨singleUse, hsign, h⟩ := (signInStep_readOnly _ _ _ _ _ _ _).bind_eq_ok h
  cases h
  obtain ⟨hl, hrole, hpend, htime, hgroup, hfloor, hhash, hbind⟩ := loadPendingForApproval_ok hload
  obtain ⟨hrow, hten⟩ := Store.loadForTenant_eq_some hl
  refine ⟨request, singleUse, delegation,
    ⟨hrow, hten, hrole, hpend, htime, hgroup, hfloor, hhash, hbind, ?_⟩, rfl, rfl⟩
  intro a ha
  subst ha
  exact hsign

theorem approveRequest_of_checks {clock : ApproveClock} {auth : ApprovalAuth} {singleUse : Bool}
    {delegation : Option Delegation}
    (h : ApproveChecks D settings clock requestId operator params (some auth) s request rule singleUse)
    (hd : checkDelegation settings requestId operator reason = .ok delegation) :
    (approveRequest D settings clock requestId operator params reason (some auth) s).1 =
      .ok (request.approvedBy operator clock.decided, rule) := by
  have hload : s.loadForTenant requestId operator.tenantId = some request := by
    simp [Store.loadForTenant, h.loaded, h.tenant]
  have hpending : checkPending requestId request = .ok () := by
    simp [checkPending, h.pending]
  have hhash : (params.map fun p => paramsHashMatches D.hashing p request.paramsHash) ≠
      some false := by
    cases params with
    | none => simp
    | some p => simp [h.hash p rfl]
  have hfirst : loadPendingForApproval D settings clock.deadline requestId operator params s =
      (.ok (request, rule), s) := by
    simp only [loadPendingForApproval, loadForTenant, Tx.bind_apply, Tx.lift_apply, Tx.read_apply,
      h.reviewer, hload, Tx.pure_apply, hpending, h.inTime, Bool.false_eq_true, if_false, h.group,
      h.floor, if_neg hhash, h.binding]
  simp only [approveRequest, Tx.bind_apply, hfirst, Tx.lift_apply, hd, signInStep,
    h.signIn auth rfl, Tx.modify_apply, Tx.pure_apply]

theorem rejectRequest_ok {decidedNow auditNow : Time}
    (h : rejectRequest settings decidedNow auditNow requestId operator reason s = (.ok (), s')) :
    ∃ request delegation, s.requests[requestId]? = some request ∧ request.status = .pending ∧
      s' = ((s.updateRequest requestId fun r => r.rejectedBy operator decidedNow).endRunInput
        requestId request).addAudit
        (auditRow .approvalDecision operator requestId request .decision 403 auditNow
          ([("decision", .str "rejected"), ("reviewed_by", .str operator.sub)] ++
            reasonExtra reason ++ delegationExtra delegation)) := by
  unfold rejectRequest at h
  obtain ⟨_, _, h⟩ := (Tx.ReadOnly.lift _).bind_eq_ok h
  obtain ⟨request, hload, h⟩ := (loadForTenant_readOnly _ _).bind_eq_ok h
  obtain ⟨_, hpend, h⟩ := (Tx.ReadOnly.lift _).bind_eq_ok h
  obtain ⟨delegation, _, h⟩ := (Tx.ReadOnly.lift _).bind_eq_ok h
  cases h
  exact ⟨request, delegation, (Store.loadForTenant_eq_some (loadForTenant_ok hload)).1,
    checkPending_ok (Tx.lift_eq_ok hpend), rfl⟩

theorem withdrawRequest_ok {withdrawnNow auditNow : Time}
    (h : withdrawRequest withdrawnNow auditNow requestId operator reason s = (.ok (), s')) :
    ∃ request, s.requests[requestId]? = some request ∧ request.status = .pending ∧
      request.principalSub = operator.sub ∧
      s' = ((s.updateRequest requestId fun r => r.withdrawnFor reason withdrawnNow).endRunInput
        requestId request).addAudit
        (auditRow .approvalDecision operator requestId request .withdraw 200 auditNow
          ([("withdrawn_by", .str operator.sub)] ++ reasonExtra reason)) := by
  unfold withdrawRequest at h
  obtain ⟨request, hload, h⟩ := (loadForTenant_readOnly _ _).bind_eq_ok h
  obtain ⟨_, hsender, h⟩ := (Tx.ReadOnly.lift _).bind_eq_ok h
  obtain ⟨_, hpend, h⟩ := (Tx.ReadOnly.lift _).bind_eq_ok h
  cases h
  have hs := Tx.lift_eq_ok hsender
  unfold checkSender at hs
  split at hs
  · cases hs
  · rename_i hne
    exact ⟨request, (Store.loadForTenant_eq_some (loadForTenant_ok hload)).1,
      checkPending_ok (Tx.lift_eq_ok hpend), (by simpa using hne : operator.sub = _).symm, rfl⟩

end Meho.Approval
