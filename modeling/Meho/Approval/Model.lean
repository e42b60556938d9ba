import Meho.Auth.Operator
import Meho.Redaction.ParamNames

/- The approval queue's data: the request row, the audit row, the custody row
of a credential write, the target row, and the reads that several modules
share (operations/approval_queue.py, approval_handoff.py,
approval_resume_checks.py, db/models.py).

A row's id is its place in the table: rows are only ever appended, so a fresh
id is the table's length, as a fresh UUID is an id no row has. Columns that
only link audit rows together (run, session and parent-audit ids) are left
out: no modelled function decides anything on them.

The two keyed digests of a call's params and the digest of a target's
connection settings are the fields of `Hashing`: HMAC and SHA-256 are not part
of the repository. Nothing is assumed about them here.

Correspondence: `discard` ↔ `Store.discardHandoff`; what is not listed keeps its name. -/
namespace Meho.Approval

/-! ## Rows -/

inductive Status where
  | pending
  | approved
  | rejected
  | expired
  | withdrawn
  deriving DecidableEq, Repr

/-- A call's params, a JSON mapping. -/
abbrev Params := Dict

/-- The parent composite a parked step re-enters. A credential write keeps only the op id on
the row; its params are in custody. -/
structure ResumeParent where
  opId : String
  params : Option Params
  state : Option Json
  afterMainEffect : Bool
  deriving Repr

/-- One row of `approval_request`. -/
structure ApprovalRequest where
  tenantId : Nat
  principalSub : String
  principalName : Option String
  opId : String
  connectorId : String
  targetId : Option Nat
  paramsHash : String
  previewHash : Option String
  params : Option Params
  executionHandle : Option Nat
  proposedEffect : Dict
  status : Status
  reviewedBy : Option String
  reviewedByName : Option String
  decidedAt : Option Time
  withdrawnAt : Option Time
  withdrawReason : Option String
  createdAt : Time
  expiresAt : Option Time
  workRef : Option String
  resumedAt : Option Time
  resumeResult : Option Dict
  resumeParent : Option ResumeParent
  idempotencyKey : Option String
  releaseId : Option String
  targetHash : Option String
  rerunCount : Nat
  revealSecret : Bool
  deriving Repr

/-- The event classes the queue writes. -/
inductive AuditEventClass where
  | policyDecision
  | approvalDecision
  deriving DecidableEq, Repr

/-- The `path` of an audit row of the queue. -/
inductive AuditPath where
  | request
  | decision
  | withdraw
  | resume
  | rerun
  deriving DecidableEq, Repr

def AuditPath.value : AuditPath → String
  | .request => "approval.request"
  | .decision => "approval.decision"
  | .withdraw => "approval.withdraw"
  | .resume => "approval.resume"
  | .rerun => "approval.rerun"

/-- The last part of the path, the `result_status` of the payload unless the writer sets one. -/
def AuditPath.resultStatus : AuditPath → String
  | .request => "request"
  | .decision => "decision"
  | .withdraw => "withdraw"
  | .resume => "resume"
  | .rerun => "rerun"

/-- One row of `audit_log` the queue wrote. -/
structure AuditRow where
  eventClass : AuditEventClass
  path : AuditPath
  statusCode : Nat
  occurredAt : Time
  operatorSub : String
  tenantId : Nat
  targetId : Option Nat
  requestId : Nat
  workRef : Option String
  payload : Dict
  deriving Repr

/-- The connection settings of a target, the fields `TARGET_HASH_FIELDS` names. -/
structure TargetSettings where
  product : String
  host : String
  port : Option Int
  fqdn : Option String
  secretRef : Option String
  secretFieldMap : Option Dict
  authModel : String
  vpnRequired : Bool
  verifyTls : Bool
  tlsCaPin : Option String
  tlsServerName : Option String
  extras : Dict
  deriving Repr

/-- One row of `target`. -/
structure Target where
  tenantId : Nat
  deleted : Bool
  settings : TargetSettings
  deriving Repr

/-- The decrypted payload of a custody row. -/
structure HandoffPayload where
  params : Params
  resumeParent : Option ResumeParent
  deriving Repr

/-- One row of `approval_execution_payload`. -/
structure CustodyRow where
  handle : Nat
  requestId : Nat
  tenantId : Nat
  payload : HandoffPayload
  deriving Repr

/-- The tables the queue works on. `nextHandle` is the source of fresh custody handles. -/
structure Store where
  requests : List ApprovalRequest
  audit : List AuditRow
  custody : List CustodyRow
  nextHandle : Nat
  targets : List Target
  deriving Repr

def Store.empty : Store := ⟨[], [], [], 0, []⟩

/-! ## Digests -/

/-- The digests the queue stores and compares: the params hash under the current key, the ones
older versions stored, the target hash, the sign-in hash. -/
structure Hashing where
  params : Params → String
  olderParams : Params → List String
  target : TargetSettings → String
  signIn : String → String

variable (H : Hashing)

def paramsHashCandidates (params : Params) : List String := H.params params :: H.olderParams params

def paramsHashMatches (params : Params) (stored : String) : Bool :=
  (paramsHashCandidates H params).contains stored

/-- The hash a request stores for its params matches them. -/
theorem paramsHashMatches_self (params : Params) :
    paramsHashMatches H params (H.params params) = true := by
  simp [paramsHashMatches, paramsHashCandidates]

/-! ## The reveal flag -/

def revealSecretParam : String := "reveal_secret"

/-- The params without the reveal flag, and whether it was set. -/
def splitRevealSecret (params : Params) : Params × Bool :=
  match dictGet params revealSecretParam with
  | none => (params, false)
  | some value =>
    (params.filter (·.1 ≠ revealSecretParam), value.truthy)

def withRevealSecret (params : Params) : Params := dictSet params revealSecretParam (.bool true)

/-- The params of the call proper. The reveal flag is not a parameter of the operation. -/
def callParams (params : Params) : Params := (splitRevealSecret params).1

theorem dictGet_eq_none_iff {d : Dict} {key : String} :
    dictGet d key = none ↔ ∀ e ∈ d, e.1 ≠ key := by
  induction d with
  | nil => simp [dictGet]
  | cons e d ih =>
    obtain ⟨k, v⟩ := e
    by_cases hk : k = key
    · simp [dictGet, hk]
    · simp [dictGet, hk, ih]

theorem callParams_eq_filter (params : Params) :
    callParams params = params.filter (·.1 ≠ revealSecretParam) := by
  unfold callParams splitRevealSecret
  cases h : dictGet params revealSecretParam with
  | some v => rfl
  | none =>
    symm
    rw [List.filter_eq_self]
    intro e he
    simpa using dictGet_eq_none_iff.mp h e he

@[simp] theorem callParams_callParams (params : Params) :
    callParams (callParams params) = callParams params := by
  simp [callParams_eq_filter, List.filter_filter]

@[simp] theorem callParams_withRevealSecret (params : Params) :
    callParams (withRevealSecret params) = callParams params := by
  simp only [callParams_eq_filter, withRevealSecret]
  induction params with
  | nil => simp [dictSet]
  | cons e d ih =>
    obtain ⟨k, v⟩ := e
    by_cases hk : k = revealSecretParam
    · simp [dictSet, hk]
    · simp only [dictSet, hk, if_false]
      rw [List.filter_cons_of_pos (by simpa using hk), List.filter_cons_of_pos (by simpa using hk),
        ih]

/-! ## Reading a row -/

/-- `_deadline_has_passed`. A row without a deadline of its own takes the default one. -/
def deadlineHasPassed (request : ApprovalRequest) (cutoff : Time) (defaultTtl : Option Time) :
    Bool :=
  match request.expiresAt with
  | some expiresAt => expiresAt ≤ cutoff
  | none =>
    match defaultTtl with
    | none => false
    | some ttl => request.createdAt ≤ cutoff - ttl

/-- The configured default deadline. -/
def resolveDefaultTtl (settings : Settings) : Time := seconds settings.approvalDefaultTtlSeconds

/-- Whether the request was made under another release than the running one. A build without a
release identity binds nothing. -/
def approvalReleaseChanged (runningReleaseId : Option String) (request : ApprovalRequest) : Bool :=
  match runningReleaseId with
  | none => false
  | some running => request.releaseId ≠ some running

inductive ApprovalResultState where
  | notStarted
  | started
  | executed
  | failed
  deriving DecidableEq, Repr

/-- Whether a stored run result is a success. -/
def resultOk (result : Dict) : Bool := dictGetStr result "status" = some "ok"

/-- The run phase of an approved request. -/
def approvalResultState (request : ApprovalRequest) : Option ApprovalResultState :=
  if request.status ≠ .approved then none
  else
    match request.resumeResult with
    | some result => if resultOk result then some .executed else some .failed
    | none => if request.resumedAt.isSome then some .started else some .notStarted

/-- The risk level the park stamped on the request. -/
def requestSafetyLevel (request : ApprovalRequest) : Option String :=
  dictGetStr request.proposedEffect "safety_level"

def isDestructive (request : ApprovalRequest) : Bool :=
  requestSafetyLevel request = some "destructive"

/-- The stored params with each secret-named value replaced, `none` when there is nothing to
replace. -/
def paramsWithSecretFieldsHidden (params : Option Params) : Option Params :=
  match params with
  | none => none
  | some params =>
    let r := Redaction.scrubFields true [] (Redaction.isSecretNameValuePair [] params) params
    if r.2 then some r.1 else none

/-- The params column after the secret-named values were hidden. -/
def hideStoredParams (params : Option Params) : Option Params :=
  match paramsWithSecretFieldsHidden params with
  | some hidden => some hidden
  | none => params

/-! ## Table operations -/

namespace Store

/-- `_load_for_tenant` without the lock: the row with this id, in this tenant. -/
def loadForTenant (s : Store) (requestId tenantId : Nat) : Option ApprovalRequest :=
  (s.requests[requestId]?).filter fun r => r.tenantId = tenantId

/-- An update of one row's columns. -/
def updateRequest (s : Store) (requestId : Nat) (f : ApprovalRequest → ApprovalRequest) : Store :=
  { s with requests := s.requests.modify requestId f }

def addAudit (s : Store) (row : AuditRow) : Store := { s with audit := s.audit ++ [row] }

/-- Delete the custody row of a request. -/
def discardHandoff (s : Store) (requestId tenantId : Nat) : Store :=
  { s with
    custody := s.custody.filter fun c => ¬(c.requestId = requestId ∧ c.tenantId = tenantId) }

/-- Drop what was kept only to run the request: its custody row, and the secret-named values of
the params the caller read. -/
def endRunInput (s : Store) (requestId : Nat) (request : ApprovalRequest) : Store :=
  let s := s.discardHandoff requestId request.tenantId
  match paramsWithSecretFieldsHidden request.params with
  | some hidden => s.updateRequest requestId fun r => { r with params := some hidden }
  | none => s

/-- The live target with this id, in this tenant. -/
def resolveTargetById (s : Store) (tenantId targetId : Nat) : Option Target :=
  (s.targets[targetId]?).filter fun t => t.tenantId = tenantId && !t.deleted

/-- The hash of the stored connection settings, `none` without a target or a live row for it. -/
def parkTimeTargetHash (s : Store) (tenantId : Nat) (targetId : Option Nat) : Option String :=
  targetId.bind fun id => (s.resolveTargetById tenantId id).map fun t => H.target t.settings

end Store
end Meho.Approval
