import Meho.Approval.Run

/- The life of one request, whatever happens to the others.

The file of a request is everything the tables hold on it: its row, the audit
rows that close it, its custody rows. `FileStep` lists everything one
transaction can do to one file: leave the row alone, open it, close it, claim
its run, store a result, claim it again for a re-run. The rest of the
development reasons about `FileStep` and never unfolds the queue again.

`FileOk` is the invariant of a file: which columns each status fixes, and that
a closed request has exactly one closing audit row, of the kind its status
asks for. `FileStep.ok` keeps it; `FileStep.later` is what no step changes. -/
namespace Meho.Approval
open Meho.Lib

/-! ## Files -/

/-- What the tables hold on one request. -/
structure File where
  row : Option ApprovalRequest
  closings : List AuditRow
  custody : List CustodyRow

/-- The audit rows that close a request are the ones of this event class. -/
def AuditRow.closes (row : AuditRow) (requestId : Nat) : Bool :=
  row.eventClass = .approvalDecision && row.requestId = requestId

def Store.file (s : Store) (requestId : Nat) : File where
  row := s.requests[requestId]?
  closings := s.audit.filter (·.closes requestId)
  custody := s.custody.filter (·.requestId = requestId)

section TableOperations
variable (s : Store) {id id' : Nat}

theorem file_updateRequest_self (f : ApprovalRequest → ApprovalRequest) :
    (s.updateRequest id f).file id = { s.file id with row := (s.file id).row.map f } := by
  simp [Store.file, Store.updateRequest]

theorem file_updateRequest_ne (f : ApprovalRequest → ApprovalRequest) (h : id' ≠ id) :
    (s.updateRequest id f).file id' = s.file id' := by
  simp [Store.file, Store.updateRequest, Ne.symm h]

theorem file_addAudit_closing {row : AuditRow} (h : row.closes id = true) :
    (s.addAudit row).file id = { s.file id with closings := (s.file id).closings ++ [row] } := by
  simp [Store.file, Store.addAudit, h]

theorem file_addAudit_other {row : AuditRow} (h : row.closes id = false) :
    (s.addAudit row).file id = s.file id := by
  simp [Store.file, Store.addAudit, h]

theorem file_discardHandoff_self (tenantId : Nat) :
    (s.discardHandoff id tenantId).file id =
      { s.file id with custody := (s.file id).custody.filter (·.tenantId ≠ tenantId) } := by
  simp only [Store.file, Store.discardHandoff, List.filter_filter, File.mk.injEq, true_and]
  apply List.filter_congr
  intro c _
  by_cases hc : c.requestId = id <;> simp [hc]

theorem file_discardHandoff_ne (tenantId : Nat) (h : id' ≠ id) :
    (s.discardHandoff id tenantId).file id' = s.file id' := by
  simp only [Store.file, Store.discardHandoff, List.filter_filter, File.mk.injEq, true_and]
  apply List.filter_congr
  intro c _
  by_cases hc : c.requestId = id'
  · simp [hc, h]
  · simp [hc]

/-- `end_run_input` on a row whose params are the ones the caller read. -/
theorem file_endRunInput_self {request r : ApprovalRequest} (hrow : (s.file id).row = some r)
    (hp : r.params = request.params) :
    (s.endRunInput id request).file id =
      ⟨some { r with params := hideStoredParams r.params }, (s.file id).closings,
        (s.file id).custody.filter (·.tenantId ≠ request.tenantId)⟩ := by
  unfold Store.endRunInput hideStoredParams
  rw [hp]
  cases hh : paramsWithSecretFieldsHidden request.params with
  | none => simp [file_discardHandoff_self, hrow, ← hp]
  | some hidden => simp [file_updateRequest_self, file_discardHandoff_self, hrow]

theorem file_endRunInput_ne (request : ApprovalRequest) (h : id' ≠ id) :
    (s.endRunInput id request).file id' = s.file id' := by
  unfold Store.endRunInput
  cases paramsWithSecretFieldsHidden request.params with
  | none => exact file_discardHandoff_ne s _ h
  | some hidden => simp only [file_updateRequest_ne _ _ h, file_discardHandoff_ne _ _ h]

end TableOperations

/-! ## What one transaction does to a file -/

/-- The four ways to close a waiting request. -/
inductive Closing where
  | approve (operator : Operator) (now : Time)
  | reject (operator : Operator) (now : Time)
  | withdraw (reason : String) (now : Time)
  | expire (cutoff : Time) (defaultTtl : Option Time)

def Closing.status : Closing → Status
  | .approve _ _ => .approved
  | .reject _ _ => .rejected
  | .withdraw _ _ => .withdrawn
  | .expire _ _ => .expired

/-- The row after the closing. All but an approval drop the run input. -/
def Closing.row (r : ApprovalRequest) : Closing → ApprovalRequest
  | .approve operator now => r.approvedBy operator now
  | .reject operator now =>
    { r.rejectedBy operator now with params := hideStoredParams r.params }
  | .withdraw reason now =>
    { r.withdrawnFor reason now with params := hideStoredParams r.params }
  | .expire cutoff defaultTtl =>
    { r.expiredAt cutoff defaultTtl with params := hideStoredParams r.params }

def Closing.custody (r : ApprovalRequest) (rows : List CustodyRow) : Closing → List CustodyRow
  | .approve _ _ => rows
  | _ => rows.filter (·.tenantId ≠ r.tenantId)

/-- The audit row a request's final status asks for. -/
def Status.closingPath : Status → AuditPath
  | .withdrawn => .withdraw
  | _ => .decision

def Status.closingCode : Status → Nat
  | .rejected => 403
  | .expired => 410
  | _ => 200

/-- The audit row records the closing of `requestId` with this status. -/
structure AuditRow.Records (row : AuditRow) (requestId : Nat) (status : Status) : Prop where
  eventClass : row.eventClass = .approvalDecision
  request : row.requestId = requestId
  path : row.path = status.closingPath
  code : row.statusCode = status.closingCode

theorem AuditRow.Records.closes {row : AuditRow} {requestId : Nat} {status : Status}
    (h : row.Records requestId status) : row.closes requestId = true := by
  simp [AuditRow.closes, h.eventClass, h.request]

/-- A new row: waiting, with nothing decided and nothing run. -/
structure ApprovalRequest.Fresh (r : ApprovalRequest) : Prop where
  status : r.status = .pending
  reviewedBy : r.reviewedBy = none
  decidedAt : r.decidedAt = none
  withdrawnAt : r.withdrawnAt = none
  resumedAt : r.resumedAt = none
  resumeResult : r.resumeResult = none
  rerunCount : r.rerunCount = 0

/-- The row after its run claim. -/
def ApprovalRequest.claimedAt (r : ApprovalRequest) (now : Time) : ApprovalRequest :=
  { r with resumedAt := some now, params := hideStoredParams r.params }

/-- The row after a run result. -/
def ApprovalRequest.withResult (r : ApprovalRequest) (result : Dict) : ApprovalRequest :=
  { r with resumeResult := some result }

/-- The row after a re-run claim. -/
def ApprovalRequest.reclaimed (r : ApprovalRequest) : ApprovalRequest :=
  { r with resumeResult := none, rerunCount := r.rerunCount + 1 }

/-- What a transaction of the queue can do to one file. A step of a run that claims nothing
only takes custody rows away. -/
inductive QueueStep (id : Nat) : File → File → Prop where
  | keep (f : File) {custody : List CustodyRow} (h : custody.Sublist f.custody) :
    QueueStep id f { f with custody := custody }
  | create {r : ApprovalRequest} {custody : List CustodyRow} (h : r.Fresh)
    (hc : ∀ c ∈ custody, c.tenantId = r.tenantId) :
    QueueStep id ⟨none, [], []⟩ ⟨some r, [], custody⟩
  | close {r : ApprovalRequest} {closings : List AuditRow} {custody : List CustodyRow}
    (c : Closing) {row : AuditRow} (h : r.status = .pending) (hr : row.Records id c.status) :
    QueueStep id ⟨some r, closings, custody⟩
      ⟨some (c.row r), closings ++ [row], c.custody r custody⟩

/-- Everything one transaction can do to one file. -/
inductive FileStep (id : Nat) : File → File → Prop where
  | queue {f g : File} (h : QueueStep id f g) : FileStep id f g
  | claim {r : ApprovalRequest} {closings : List AuditRow} {custody custody' : List CustodyRow}
    (now : Time) (h : r.status = .approved) (hn : r.resumedAt = none)
    (hc : custody'.Sublist custody) :
    FileStep id ⟨some r, closings, custody⟩ ⟨some (r.claimedAt now), closings, custody'⟩
  | record {r : ApprovalRequest} {closings : List AuditRow} {custody : List CustodyRow}
    (result : Dict) (h : r.status = .approved) (hn : r.resumedAt.isSome = true)
    (he : r.resumeResult = none) :
    FileStep id ⟨some r, closings, custody⟩ ⟨some (r.withResult result), closings, custody⟩
  | reclaim {r : ApprovalRequest} {closings : List AuditRow} {custody : List CustodyRow}
    (h : r.status = .approved) (hf : r.resumeResult.map resultOk = some false) :
    FileStep id ⟨some r, closings, custody⟩ ⟨some r.reclaimed, closings, custody⟩

theorem QueueStep.refl (id : Nat) (f : File) : QueueStep id f f := .keep f (List.Sublist.refl _)

variable {f g : File}

theorem QueueStep.of_eq {id : Nat} (h : g = f) : QueueStep id f g := h ▸ .refl id f

theorem FileStep.of_eq {id : Nat} (h : g = f) : FileStep id f g :=
  .queue (.of_eq h)

/-! ## What no step changes -/

/-- The columns a park writes and nothing writes again. -/
structure ParkedCall where
  tenantId : Nat
  principalSub : String
  opId : String
  connectorId : String
  targetId : Option Nat
  paramsHash : String
  previewHash : Option String
  executionHandle : Option Nat
  proposedEffect : Dict
  workRef : Option String
  resumeParent : Option ResumeParent
  releaseId : Option String
  targetHash : Option String
  revealSecret : Bool

def ApprovalRequest.parked (r : ApprovalRequest) : ParkedCall :=
  ⟨r.tenantId, r.principalSub, r.opId, r.connectorId, r.targetId, r.paramsHash, r.previewHash,
    r.executionHandle, r.proposedEffect, r.workRef, r.resumeParent, r.releaseId, r.targetHash,
    r.revealSecret⟩

@[simp] theorem Closing.row_status (r : ApprovalRequest) (c : Closing) :
    (c.row r).status = c.status := by cases c <;> rfl

@[simp] theorem Closing.row_parked (r : ApprovalRequest) (c : Closing) :
    (c.row r).parked = r.parked := by cases c <;> rfl

theorem Closing.status_ne_pending (c : Closing) : c.status ≠ .pending := by cases c <;> simp [status]

/-- How a row relates to any later version of itself. -/
structure Later (r r' : ApprovalRequest) : Prop where
  parked : r'.parked = r.parked
  status : r.status ≠ .pending → r'.status = r.status
  resumedAt : r.resumedAt.isSome = true → r'.resumedAt = r.resumedAt
  rerunCount : r.rerunCount ≤ r'.rerunCount

theorem Later.refl (r : ApprovalRequest) : Later r r :=
  ⟨rfl, fun _ => rfl, fun _ => rfl, Nat.le_refl _⟩

theorem Later.trans {a b c : ApprovalRequest} (h₁ : Later a b) (h₂ : Later b c) : Later a c where
  parked := h₂.parked.trans h₁.parked
  status h := by
    have hb := h₁.status h
    rw [h₂.status (by rw [hb]; exact h), hb]
  resumedAt h := by
    have hb := h₁.resumedAt h
    rw [h₂.resumedAt (by rw [hb]; exact h), hb]
  rerunCount := Nat.le_trans h₁.rerunCount h₂.rerunCount

variable {r : ApprovalRequest}

theorem QueueStep.later {id : Nat} (h : QueueStep id f g) (hr : f.row = some r) :
    ∃ r', g.row = some r' ∧ Later r r' := by
  cases h with
  | keep _ hs => exact ⟨r, hr, Later.refl r⟩
  | create hf hc => cases hr
  | close c hp hrow =>
    cases hr
    refine ⟨_, rfl, c.row_parked r, fun hne => absurd hp hne, ?_, ?_⟩
    · intro _; cases c <;> rfl
    · cases c <;> exact Nat.le_refl _

/-- A queue step leaves an approved row alone, and what it writes is not claimed. -/
theorem QueueStep.quiet {id : Nat} (h : QueueStep id f g)
    (hf : ∀ r, f.row = some r → r.status = .pending → r.resumedAt = none) :
    (∀ r, f.row = some r → r.status ≠ .pending → g.row = some r) ∧
      (∀ r, g.row = some r → f.row = some r ∨ r.resumedAt = none) := by
  cases h with
  | keep _ hs => exact ⟨fun r hr _ => hr, fun r hr => .inl hr⟩
  | create hfresh hc =>
    refine ⟨fun r hr => (by cases hr), ?_⟩
    intro r hr
    cases hr
    exact .inr hfresh.resumedAt
  | @close r closings custody c row hp hrow =>
    refine ⟨?_, ?_⟩
    · intro r' hr hne
      cases hr
      exact absurd hp hne
    · intro r' hr
      cases hr
      have hnone := hf r rfl hp
      right
      cases c <;> exact hnone

/-- A row is never deleted, and what it may become is bounded by `Later`. -/
theorem FileStep.later {id : Nat} (h : FileStep id f g) (hr : f.row = some r) :
    ∃ r', g.row = some r' ∧ Later r r' := by
  cases h with
  | queue hq => exact hq.later hr
  | claim now hs hn hc =>
    cases hr
    refine ⟨_, rfl, rfl, fun _ => rfl, ?_, Nat.le_refl _⟩
    intro hsome
    rw [hn] at hsome
    cases hsome
  | record result hs hn he => cases hr; exact ⟨_, rfl, rfl, fun _ => rfl, fun _ => rfl, Nat.le_refl _⟩
  | reclaim hs hf => cases hr; exact ⟨_, rfl, rfl, fun _ => rfl, fun _ => rfl, Nat.le_succ _⟩

/-! ## The invariant of a file -/

/-- The columns each status fixes. -/
structure ApprovalRequest.Ok (r : ApprovalRequest) : Prop where
  pending : r.status = .pending → r.Fresh
  approved : r.status = .approved → r.reviewedBy.isSome = true ∧ r.decidedAt.isSome = true
  withdrawn : r.status = .withdrawn →
    r.withdrawnAt.isSome = true ∧ r.reviewedBy = none ∧ r.decidedAt = none
  claimed : r.resumedAt.isSome = true → r.status = .approved
  finished : r.resumeResult.isSome = true → r.resumedAt.isSome = true
  first : r.resumedAt = none → r.rerunCount = 0

/-- The one closing audit row of a closed request, and none before. -/
def ClosedOnce (id : Nat) (status : Status) (closings : List AuditRow) : Prop :=
  if status = .pending then closings = [] else ∃ row, closings = [row] ∧ row.Records id status

/-- The invariant of a file. -/
structure FileOk (id : Nat) (f : File) : Prop where
  empty : f.row = none → f.closings = [] ∧ f.custody = []
  row : ∀ r, f.row = some r → r.Ok
  closings : ∀ r, f.row = some r → ClosedOnce id r.status f.closings
  custody : ∀ r, f.row = some r → ∀ c ∈ f.custody, c.tenantId = r.tenantId

theorem ApprovalRequest.Fresh.ok (h : r.Fresh) : r.Ok where
  pending _ := h
  approved hs := by rw [h.status] at hs; cases hs
  withdrawn hs := by rw [h.status] at hs; cases hs
  claimed hs := by rw [h.resumedAt] at hs; cases hs
  finished hs := by rw [h.resumeResult] at hs; cases hs
  first _ := h.rerunCount

theorem Closing.row_ok (h : r.Fresh) (c : Closing) : (c.row r).Ok := by
  have hres : (c.row r).resumedAt = none := by cases c <;> exact h.resumedAt
  have hend : (c.row r).resumeResult = none := by cases c <;> exact h.resumeResult
  refine ⟨?_, ?_, ?_, ?_, ?_, ?_⟩
  · intro hs; rw [c.row_status] at hs; exact absurd hs c.status_ne_pending
  · intro hs
    cases c <;> first | exact ⟨rfl, rfl⟩ | cases hs
  · intro hs
    cases c <;> first | exact ⟨rfl, h.reviewedBy, h.decidedAt⟩ | cases hs
  · intro hs; rw [hres] at hs; cases hs
  · intro hs; rw [hend] at hs; cases hs
  · intro _; cases c <;> exact h.rerunCount

theorem ApprovalRequest.Ok.claimed_of_result (h : r.Ok) {ok : Bool}
    (hres : r.resumeResult.map resultOk = some ok) : r.resumedAt.isSome = true := by
  apply h.finished
  cases hr : r.resumeResult with
  | none => rw [hr] at hres; cases hres
  | some result => rfl

theorem QueueStep.ok {id : Nat} (h : QueueStep id f g) (hf : FileOk id f) : FileOk id g := by
  cases h with
  | keep _ hs =>
    refine ⟨fun hn => ⟨(hf.empty hn).1, ?_⟩, hf.row, hf.closings, ?_⟩
    · have := (hf.empty hn).2
      rw [this] at hs
      exact List.sublist_nil.mp hs
    · intro r hr c hc
      exact hf.custody r hr c (hs.subset hc)
  | create hfresh hc =>
    refine ⟨fun hn => (by cases hn), ?_, ?_, ?_⟩
    · intro r hr; cases hr; exact hfresh.ok
    · intro r hr; cases hr; simp [ClosedOnce, hfresh.status]
    · intro r hr; cases hr; exact hc
  | @close r closings custody c row hp hrow =>
    have hfresh := (hf.row r rfl).pending hp
    have hnil : closings = [] := by simpa [ClosedOnce, hp] using hf.closings r rfl
    refine ⟨fun hn => (by cases hn), ?_, ?_, ?_⟩
    · intro r' hr; cases hr; exact c.row_ok hfresh
    · intro r' hr
      cases hr
      simp only [ClosedOnce, c.row_status, c.status_ne_pending, if_false, hnil, List.nil_append]
      exact ⟨row, rfl, hrow⟩
    · intro r' hr e he
      cases hr
      have hold := hf.custody r rfl e (by
        cases c with
        | approve => exact he
        | reject => exact List.mem_of_mem_filter he
        | withdraw => exact List.mem_of_mem_filter he
        | expire => exact List.mem_of_mem_filter he)
      rw [hold]
      exact (congrArg ParkedCall.tenantId (c.row_parked r)).symm

theorem FileStep.ok {id : Nat} (h : FileStep id f g) (hf : FileOk id f) : FileOk id g := by
  cases h with
  | queue hq => exact hq.ok hf
  | @claim r closings custody custody' now hs hn hc =>
    have hok := hf.row r rfl
    refine ⟨fun hn => (by cases hn), ?_, ?_, ?_⟩
    · intro r' hr
      cases hr
      refine ⟨?_, hok.approved, hok.withdrawn, fun _ => hs, fun _ => rfl, ?_⟩
      · intro hp; exact absurd (hs.symm.trans hp) (by decide)
      · intro hnone; cases hnone
    · intro r' hr; cases hr; exact hf.closings r rfl
    · intro r' hr e he; cases hr; exact hf.custody r rfl e (hc.subset he)
  | @record r closings custody result hs hn he =>
    have hok := hf.row r rfl
    refine ⟨fun hn => (by cases hn), ?_, ?_, ?_⟩
    · intro r' hr
      cases hr
      refine ⟨?_, hok.approved, hok.withdrawn, hok.claimed, fun _ => hn, hok.first⟩
      intro hp
      exact absurd (hs.symm.trans hp) (by decide)
    · intro r' hr; cases hr; exact hf.closings r rfl
    · intro r' hr; cases hr; exact hf.custody r rfl
  | @reclaim r closings custody hs hfail =>
    have hok := hf.row r rfl
    have hsome : r.resumedAt.isSome = true := hok.claimed_of_result hfail
    refine ⟨fun hn => (by cases hn), ?_, ?_, ?_⟩
    · intro r' hr
      cases hr
      refine ⟨?_, hok.approved, hok.withdrawn, hok.claimed, ?_, ?_⟩
      · intro hp; exact absurd (hs.symm.trans hp) (by decide)
      · intro hcontra; cases hcontra
      · intro hnone
        change r.resumedAt = none at hnone
        rw [hnone] at hsome
        cases hsome
    · intro r' hr; cases hr; exact hf.closings r rfl
    · intro r' hr; cases hr; exact hf.custody r rfl

theorem ApprovalRequest.Ok.no_result (h : r.Ok) (hn : r.resumedAt = none) :
    r.resumeResult = none := by
  cases hres : r.resumeResult with
  | none => rfl
  | some result =>
    have hset := h.finished (by rw [hres]; rfl)
    rw [hn] at hset
    cases hset

section
variable {id : Nat} (h : FileStep id f g)
include h

theorem FileStep.unclaimed {r' : ApprovalRequest} (hf : FileOk id f) (hr : f.row = some r)
    (hs : r.status = .approved) (hr' : g.row = some r') (hn : r'.resumedAt = none) : r' = r := by
  cases h with
  | queue hq =>
    cases hq with
    | keep _ _ => exact Option.some.inj (hr'.symm.trans hr)
    | create _ _ => cases hr
    | close c hp _ => cases hr; rw [hs] at hp; cases hp
  | claim now _ _ _ => cases hr'; cases hn
  | record result _ hset _ =>
    cases hr
    cases hr'
    change r.resumedAt = none at hn
    rw [hn] at hset
    cases hset
  | reclaim _ hfail =>
    cases hr
    cases hr'
    have hset := (hf.row r rfl).claimed_of_result hfail
    change r.resumedAt = none at hn
    rw [hn] at hset
    cases hset

/-- A step either leaves the status alone and closes nothing, or closes a waiting request with
one audit row. -/
theorem FileStep.status (hr : f.row = some r) :
    ∃ r', g.row = some r' ∧ ((r'.status = r.status ∧ g.closings = f.closings) ∨
      (r.status = .pending ∧ r'.status ≠ .pending ∧
        ∃ row : AuditRow, g.closings = f.closings ++ [row] ∧ row.Records id r'.status)) := by
  cases h with
  | queue hq =>
    cases hq with
    | keep _ _ => exact ⟨r, hr, .inl ⟨rfl, rfl⟩⟩
    | create _ _ => cases hr
    | @close r₀ closings custody c row hp hrow =>
      cases hr
      refine ⟨c.row r, rfl, .inr ⟨hp, ?_, row, rfl, ?_⟩⟩
      · rw [c.row_status]; exact c.status_ne_pending
      · rw [c.row_status]; exact hrow
  | claim now _ _ _ | record result _ _ _ | reclaim _ _ => cases hr; exact ⟨_, rfl, .inl ⟨rfl, rfl⟩⟩

/-- A step sets `resumed_at` on an approved row that has none, or leaves it. -/
theorem FileStep.resumedAt (hr : f.row = some r) :
    ∃ r', g.row = some r' ∧ (r'.resumedAt = r.resumedAt ∨
      (r.resumedAt = none ∧ r'.resumedAt.isSome = true ∧ r.status = .approved ∧
        r'.status = .approved)) := by
  cases h with
  | queue hq =>
    cases hq with
    | keep _ _ => exact ⟨r, hr, .inl rfl⟩
    | create _ _ => cases hr
    | close c _ _ =>
      cases hr
      refine ⟨c.row r, rfl, .inl ?_⟩
      cases c <;> rfl
  | claim now hs hn _ => cases hr; exact ⟨_, rfl, .inr ⟨hn, rfl, hs, hs⟩⟩
  | record result _ _ _ | reclaim _ _ => cases hr; exact ⟨_, rfl, .inl rfl⟩

theorem FileStep.opened (hf : f.row = none) (hr : g.row = some r) : r.Fresh ∧ g.closings = [] := by
  cases h with
  | queue hq =>
    cases hq with
    | keep _ _ => exact absurd (hr.symm.trans hf) (by simp)
    | create hfresh _ => cases hr; exact ⟨hfresh, rfl⟩
    | close c _ _ => cases hf
  | claim now _ _ _ => cases hf
  | record result _ _ _ => cases hf
  | reclaim _ _ => cases hf

end

end Meho.Approval
