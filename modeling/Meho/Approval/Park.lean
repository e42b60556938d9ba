import Meho.Approval.Decide

/- How a request gets into the queue and how it leaves it without a person:
`create_pending_request`, `expire_stale_requests`,
`expire_older_release_requests` (operations/approval_queue.py).

A park is one transaction. With an idempotency key it first looks for a live
request of the same principal with that key: an overdue one is expired in the
same transaction, any other is handed back if the call is the same. The
transaction holds the row lock, so the locked re-read of the overdue row cannot
miss and the lookup loop runs once; the unique index makes the insert itself
find a row that got there first.

A sweep expires every row it selects, except the rows a decision in flight has
locked.

Correspondence: `store` ↔ `Store.storeHandoff`; what is not listed keeps its name. -/
namespace Meho.Approval
open Meho.Lib

/-! ## Expiry -/

/-- The row an expiry leaves, before its run input is dropped. A row without a deadline gets the
default one. -/
def ApprovalRequest.expiredAt (request : ApprovalRequest) (cutoff : Time)
    (defaultTtl : Option Time) : ApprovalRequest :=
  { request with
    expiresAt :=
      match request.expiresAt with
      | some t => some t
      | none => defaultTtl.map fun ttl => request.createdAt + ttl
    status := .expired, decidedAt := some cutoff }

/-- Move one locked `pending` row to `expired` and audit it. -/
def expireRequest (operator : Operator) (cutoff : Time) (defaultTtl : Option Time)
    (extra : ApprovalRequest → Dict) (auditNow : Time) (s : Store) (requestId : Nat) : Store :=
  match s.requests[requestId]? with
  | none => s
  | some request =>
    let expired := request.expiredAt cutoff defaultTtl
    ((s.updateRequest requestId fun r => r.expiredAt cutoff defaultTtl).endRunInput requestId
      request).addAudit
      (auditRow .approvalDecision operator requestId request .decision 410 auditNow
        (dictUpdate [("decision", .str "expired"),
          ("expires_at", .str ((expired.expiresAt.map toString).getD "None"))] (extra request)))

/-- The acting identity of every expiry. -/
def expiryOperator (tenantId : Nat) : Operator where
  sub := "system:approval-expiry"
  name := none
  tenantId := tenantId
  tenantRole := .operator
  principalKind := .user
  approver := false
  selfApprover := false
  tenantChosen := true
  roleFromPlatformAdmin := false
  webSession := false
  clientId := none
  azp := none
  authTime := none
  sid := none
  acr := none

/-- The pending rows of a tenant that a sweep selects. -/
def sweptRows (s : Store) (tenantId : Nat) (locked : List Nat)
    (due : ApprovalRequest → Bool) : List Nat :=
  (List.range s.requests.length).filter fun id =>
    match s.requests[id]? with
    | none => false
    | some r => r.status = .pending && r.tenantId = tenantId && due r && !locked.contains id

/-- Expire every pending row past its deadline. -/
def expireStaleRequests (operator : Operator) (cutoff auditNow : Time)
    (defaultTtl : Option Time) (locked : List Nat) (s : Store) : Except ApprovalError Store :=
  match checkReviewerRole operator with
  | .error e => .error e
  | .ok () =>
    .ok ((sweptRows s operator.tenantId locked
      fun r => deadlineHasPassed r cutoff defaultTtl).foldl
      (expireRequest operator cutoff defaultTtl (fun _ => []) auditNow) s)

/-- Expire every pending row made under another release. -/
def expireOlderReleaseRequests (settings : Settings) (operator : Operator) (releaseId : String)
    (cutoff auditNow : Time) (locked : List Nat) (s : Store) : Except ApprovalError Store :=
  match checkReviewerRole operator with
  | .error e => .error e
  | .ok () =>
    let ttl := some (resolveDefaultTtl settings)
    .ok ((sweptRows s operator.tenantId locked fun r => r.releaseId ≠ some releaseId).foldl
      (expireRequest operator cutoff ttl
        (fun r =>
          if deadlineHasPassed r cutoff ttl then []
          else [("reason", .str "release_changed"),
            ("request_release", match r.releaseId with | some id => .str id | none => .null),
            ("running_release", .str releaseId)]) auditNow) s)

/-! ## Parking -/

/-- Who a request is saved for, when not for the operator. -/
structure ResumeRequester where
  sub : String
  name : Option String
  deriving Repr

/-- The arguments of `create_pending_request`, with what it reads from its context: the bound
work reference, the running release and the clock. -/
structure CreateArgs where
  operator : Operator
  connectorId : String
  opId : String
  targetId : Option Nat
  params : Params
  paramsHash : String
  proposedEffect : Option Dict
  expiresAt : Option Time
  previewHash : Option String
  resumeParent : Option ResumeParent
  idempotencyKey : Option String
  requester : Option ResumeRequester
  revealSecret : Bool
  workRef : Option String
  runningReleaseId : Option String
  settings : Settings
  lookupNow : Time
  expireNow : Time
  createdAt : Time
  auditNow : Time

def isLive (status : Status) : Bool := status = .pending || status = .approved

/-- The live request that holds a key for a principal. -/
def findIdempotentRequest (s : Store) (tenantId : Nat) (principalSub key : String) :
    Option Nat :=
  s.requests.findIdx? fun r =>
    r.tenantId = tenantId && r.principalSub = principalSub && r.idempotencyKey = some key &&
      isLive r.status

def isOverduePending (settings : Settings) (now : Time) (request : ApprovalRequest) : Bool :=
  request.status = .pending && deadlineHasPassed request now (some (resolveDefaultTtl settings))

/-- The key's holder for a retry of the same call, a conflict for another call. -/
def reuseIdempotentRequest (H : Hashing) (a : CreateArgs) (requestId : Nat)
    (existing : ApprovalRequest) : Except ApprovalError Nat :=
  if existing.opId = a.opId ∧ existing.connectorId = a.connectorId ∧
      existing.targetId = a.targetId ∧
      paramsHashMatches H a.params existing.paramsHash = true ∧
      existing.previewHash = a.previewHash ∧ existing.workRef = a.workRef then .ok requestId
  else .error (.idempotencyKeyConflict requestId)

def boundedExpiresAt (createdAt : Time) (requested : Option Time) (defaultTtl : Time) : Time :=
  match requested with
  | none => createdAt + defaultTtl
  | some requested => min requested (createdAt + defaultTtl)

/-- The identifier-only effect of a park that computed none. -/
def identifierEffect (opId connectorId : String) (targetId : Option Nat) : Dict :=
  [("op_id", .str opId), ("connector_id", .str connectorId)] ++
    match targetId with
    | some id => [("target_id", .int id)]
    | none => []

/-- The row a park inserts, before a credential write gets its custody handle. -/
def newRequest (D : Deployment) (s : Store) (a : CreateArgs) : ApprovalRequest where
  tenantId := a.operator.tenantId
  principalSub := match a.requester with | some r => r.sub | none => a.operator.sub
  principalName := match a.requester with | some r => r.name | none => a.operator.name
  opId := a.opId
  connectorId := a.connectorId
  targetId := a.targetId
  paramsHash := a.paramsHash
  previewHash := a.previewHash
  -- the params of a credential write go into custody and never into the row
  params := if D.classifyOp a.opId = "credential_write" then none else some a.params
  executionHandle := none
  proposedEffect := a.proposedEffect.getD (identifierEffect a.opId a.connectorId a.targetId)
  status := .pending
  reviewedBy := none
  reviewedByName := none
  decidedAt := none
  withdrawnAt := none
  withdrawReason := none
  createdAt := a.createdAt
  expiresAt := some (boundedExpiresAt a.createdAt a.expiresAt (resolveDefaultTtl a.settings))
  workRef := a.workRef
  resumedAt := none
  resumeResult := none
  resumeParent :=
    if D.classifyOp a.opId = "credential_write" then
      a.resumeParent.map fun p => ⟨p.opId, none, none, false⟩
    else a.resumeParent
  idempotencyKey := a.idempotencyKey
  releaseId := a.runningReleaseId
  targetHash := s.parkTimeTargetHash D.hashing a.operator.tenantId a.targetId
  rerunCount := 0
  revealSecret := a.revealSecret

/-- Put the run input of a credential write into custody and answer its handle. -/
def Store.storeHandoff (s : Store) (requestId tenantId : Nat) (payload : HandoffPayload) : Store :=
  { s with
    custody := s.custody ++ [⟨s.nextHandle, requestId, tenantId, payload⟩]
    nextHandle := s.nextHandle + 1 }

/-- Insert the row, its custody row when it has one, and the request's audit row. -/
def insertRequest (D : Deployment) (a : CreateArgs) (s : Store) : Store :=
  let requestId := s.requests.length
  let request := newRequest D s a
  if D.classifyOp a.opId = "credential_write" then
    let stored := { request with executionHandle := some s.nextHandle }
    ({ s with requests := s.requests ++ [stored] }.storeHandoff requestId request.tenantId
      ⟨a.params, a.resumeParent⟩).addAudit
      (auditRow .policyDecision a.operator requestId stored .request 202 a.auditNow [])
  else
    { s with requests := s.requests ++ [request] }.addAudit
      (auditRow .policyDecision a.operator requestId request .request 202 a.auditNow [])

/-- The tables after an overdue holder of the key was expired, and the usable holder, if any. -/
def resolveIdempotentRequest (a : CreateArgs) (key : String) (s : Store) :
    Option (Nat × ApprovalRequest) × Store :=
  match findIdempotentRequest s a.operator.tenantId a.operator.sub key with
  | none => (none, s)
  | some id =>
    match s.requests[id]? with
    | none => (none, s)
    | some existing =>
      if isOverduePending a.settings a.lookupNow existing then
        (none, expireRequest (expiryOperator existing.tenantId) a.expireNow
          (some (resolveDefaultTtl a.settings)) (fun _ => []) a.auditNow s id)
      else (some (id, existing), s)

/-- Insert under the unique index: a live row of the same requester and key wins. -/
def insertIdempotentRequest (D : Deployment) (a : CreateArgs) (key : String) (s : Store) :
    Except ApprovalError (Nat × Store) :=
  match findIdempotentRequest s a.operator.tenantId (newRequest D s a).principalSub key with
  | none => .ok (s.requests.length, insertRequest D a s)
  | some id =>
    match s.requests[id]? with
    | none => .ok (s.requests.length, insertRequest D a s)
    | some winner => (reuseIdempotentRequest D.hashing a id winner).map fun id => (id, s)

/-- Park a call: the request's id, and the tables after the commit. -/
def createPendingRequest (D : Deployment) (a : CreateArgs) (s : Store) :
    Except ApprovalError (Nat × Store) :=
  match a.idempotencyKey with
  | none => .ok (s.requests.length, insertRequest D a s)
  | some key =>
    match resolveIdempotentRequest a key s with
    | (some (id, existing), s₁) => (reuseIdempotentRequest D.hashing a id existing).map (·, s₁)
    | (none, s₁) => insertIdempotentRequest D a key s₁

end Meho.Approval
