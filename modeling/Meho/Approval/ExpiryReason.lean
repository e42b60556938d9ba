import Meho.Approval.Guarantees

/- Why a request expired (operations/approval_queue.py).

The deadline is tested in two places: in Python on a locked row (`_deadline_has_passed`) and in
the WHERE clause of the sweep (`_deadline_passed_clause`). The reason of an expiry is not
stored; it is read off the row later, by comparing when it was decided with when it was due.

An expiry writes both columns of that comparison: the instant it decided at, and the deadline
it tested if the row had none (`ApprovalRequest.expiredAt`). `worldStep_expires` says which
actions expire a row and what each of them has tested, and an expired row stays as it is.

Correspondence: the reason for which an action expires a row ↔ `Act.expiryReason`; what
is not listed keeps its name. -/
namespace Meho.Approval
open Meho.Lib

/-! ## The deadline in SQL -/

/-- A condition on a row: `none` is unknown. -/
abbrev SqlBool := Option Bool

def sqlAnd : SqlBool → SqlBool → SqlBool
  | some false, _ => some false
  | _, some false => some false
  | some true, some true => some true
  | _, _ => none

def sqlOr : SqlBool → SqlBool → SqlBool
  | some true, _ => some true
  | _, some true => some true
  | some false, some false => some false
  | _, _ => none

/-- `column <= value`. -/
def sqlLe (column : Option Time) (value : Time) : SqlBool := column.map fun t => t ≤ value

def deadlinePassedClause (request : ApprovalRequest) (cutoff : Time) (defaultTtl : Option Time) :
    SqlBool :=
  let concrete := sqlAnd (some request.expiresAt.isSome) (sqlLe request.expiresAt cutoff)
  match defaultTtl with
  | none => concrete
  | some ttl =>
    let legacyCutoff := cutoff - ttl
    sqlOr concrete
      (sqlAnd (some request.expiresAt.isNone) (sqlLe (some request.createdAt) legacyCutoff))

/-- The clause is never unknown, and selects the rows that the test holds of. -/
theorem deadlinePassedClause_eq (request : ApprovalRequest) (cutoff : Time)
    (defaultTtl : Option Time) :
    deadlinePassedClause request cutoff defaultTtl =
      some (deadlineHasPassed request cutoff defaultTtl) := by
  unfold deadlinePassedClause deadlineHasPassed
  cases request.expiresAt with
  | some expiresAt =>
    by_cases hdue : expiresAt ≤ cutoff
    · cases defaultTtl <;> simp [sqlLe, sqlAnd, sqlOr, hdue]
    · cases defaultTtl <;> simp [sqlLe, sqlAnd, sqlOr, hdue]
  | none =>
    cases defaultTtl with
    | none => rfl
    | some ttl =>
      by_cases hdue : request.createdAt ≤ cutoff - ttl
      · simp [sqlLe, sqlAnd, sqlOr, hdue]
      · simp [sqlLe, sqlAnd, sqlOr, hdue]

/-! ## Reasons -/

inductive ApprovalExpiredReason where
  | deadlinePassed
  | releaseChanged
  deriving DecidableEq, Repr

/-- `approval_expired_reason`. -/
def approvalExpiredReason (request : ApprovalRequest) : Option ApprovalExpiredReason :=
  if request.status ≠ .expired then none
  else
    match request.decidedAt, request.expiresAt with
    | some decidedAt, some expiresAt =>
      if decidedAt < expiresAt then some .releaseChanged else some .deadlinePassed
    | _, _ => some .deadlinePassed

/-- Why an action expires a row. Only the start-up sweep has a second reason, for a row that is
not past its deadline. -/
def Act.expiryReason (a : Act) (request : ApprovalRequest) : ApprovalExpiredReason :=
  match a with
  | .expireOlderRelease settings _ _ cutoff _ _ =>
    if deadlineHasPassed request cutoff (some (resolveDefaultTtl settings)) then .deadlinePassed
    else .releaseChanged
  | _ => .deadlinePassed

/-- An action that expires a row, with the instant it decides at and the default deadline it
uses. -/
inductive Act.Expires : Act → ApprovalRequest → Time → Option Time → Prop where
  | stale {request : ApprovalRequest} {operator : Operator} {cutoff auditNow : Time}
      {defaultTtl : Option Time} {locked : List Nat}
      (hdue : deadlineHasPassed request cutoff defaultTtl = true) :
      Act.Expires (.expireStale operator cutoff auditNow defaultTtl locked) request cutoff defaultTtl
  | olderRelease {request : ApprovalRequest} {settings : Settings} {operator : Operator}
      {releaseId : String} {cutoff auditNow : Time} {locked : List Nat} :
      Act.Expires (.expireOlderRelease settings operator releaseId cutoff auditNow locked) request
        cutoff (some (resolveDefaultTtl settings))
  /-- A retry found the row overdue and expires it a little later. -/
  | retry {request : ApprovalRequest} {args : CreateArgs} {waits : Bool} {fqdn : Option String}
      (hdue : deadlineHasPassed request args.lookupNow (some (resolveDefaultTtl args.settings)) =
        true) :
      Act.Expires (.create args waits fqdn) request args.expireNow
        (some (resolveDefaultTtl args.settings))

/-- The clock does not go back within an action that reads it twice before it expires a row. -/
def Act.ClockForward : Act → Prop
  | .create args _ _ => args.lookupNow ≤ args.expireNow
  | _ => True

/-! ## What an expired row says -/

variable {request : ApprovalRequest} {defaultTtl : Option Time}

theorem deadlineHasPassed_mono {cutoff later : Time} (hle : cutoff ≤ later)
    (h : deadlineHasPassed request cutoff defaultTtl = true) :
    deadlineHasPassed request later defaultTtl = true := by
  unfold deadlineHasPassed at h ⊢
  cases hexpires : request.expiresAt with
  | some expiresAt =>
    simp only [hexpires, decide_eq_true_eq] at h ⊢
    exact Int.le_trans h hle
  | none =>
    cases defaultTtl with
    | none => simp only [hexpires] at h; cases h
    | some ttl =>
      simp only [hexpires, decide_eq_true_eq] at h ⊢
      exact Int.le_trans h (Int.sub_le_sub_right hle ttl)

/-- The two forms of the test of a default deadline. -/
theorem due_by_default_iff (createdAt cutoff ttl : Int) :
    createdAt ≤ cutoff - ttl ↔ ¬ cutoff < createdAt + ttl := by
  omega

/-- The row an expiry leaves says whether the deadline had passed, where there was one to test. -/
theorem reason_of_expired (request : ApprovalRequest) (cutoff : Time) (defaultTtl : Option Time)
    (hdeadline : request.expiresAt.isSome = true ∨ defaultTtl.isSome = true) :
    approvalExpiredReason (Closing.row request (.expire cutoff defaultTtl)) =
      some (if deadlineHasPassed request cutoff defaultTtl then .deadlinePassed
        else .releaseChanged) := by
  unfold deadlineHasPassed
  cases hexpires : request.expiresAt with
  | some expiresAt =>
    by_cases hdue : expiresAt ≤ cutoff
    · simp [approvalExpiredReason, Closing.row, ApprovalRequest.expiredAt, hexpires, hdue]
    · simp [approvalExpiredReason, Closing.row, ApprovalRequest.expiredAt, hexpires, hdue]
  | none =>
    rw [hexpires] at hdeadline
    obtain ⟨ttl, rfl⟩ := Option.isSome_iff_exists.mp (hdeadline.resolve_left (by simp))
    by_cases hdue : request.createdAt ≤ cutoff - ttl
    · have hpast := (due_by_default_iff request.createdAt cutoff ttl).mp hdue
      simp [approvalExpiredReason, Closing.row, ApprovalRequest.expiredAt, hexpires, hdue, hpast]
    · have hfuture : cutoff < request.createdAt + ttl := by
        rw [due_by_default_iff, not_not] at hdue
        exact hdue
      simp [approvalExpiredReason, Closing.row, ApprovalRequest.expiredAt, hexpires, hdue, hfuture]

theorem isSome_of_deadlineHasPassed {cutoff : Time}
    (h : deadlineHasPassed request cutoff defaultTtl = true) :
    request.expiresAt.isSome = true ∨ defaultTtl.isSome = true := by
  unfold deadlineHasPassed at h
  cases hexpires : request.expiresAt with
  | some expiresAt => exact .inl rfl
  | none =>
    cases defaultTtl with
    | none => simp only [hexpires] at h; cases h
    | some ttl => exact .inr rfl

theorem Act.Expires.reason {a : Act} {cutoff : Time} (h : a.Expires request cutoff defaultTtl)
    (hclock : a.ClockForward) :
    approvalExpiredReason (Closing.row request (.expire cutoff defaultTtl)) =
      some (a.expiryReason request) := by
  cases h with
  | stale hdue =>
    rw [reason_of_expired request cutoff defaultTtl (isSome_of_deadlineHasPassed hdue), if_pos hdue]
    rfl
  | olderRelease =>
    rw [reason_of_expired request cutoff _ (.inr rfl)]
    rfl
  | retry hdue =>
    have hlater := deadlineHasPassed_mono hclock hdue
    rw [reason_of_expired request _ _ (.inr rfl), if_pos hlater]
    rfl

/-! ## Which actions expire a row -/

section Rows
variable {operator : Operator} {cutoff auditNow : Time} {ttl : Option Time}
  {extra : ApprovalRequest → Dict} {s : Store} {id : Nat} {r : ApprovalRequest}

theorem expireRequest_row (h : s.requests[id]? = some r) :
    (expireRequest operator cutoff ttl extra auditNow s id).requests[id]? =
      some (Closing.row r (.expire cutoff ttl)) := by
  obtain ⟨row, hrec, heq⟩ := expireRequest_eq operator cutoff auditNow ttl extra h
  have hupd : ((s.updateRequest id fun r => r.expiredAt cutoff ttl).file id).row =
      some (r.expiredAt cutoff ttl) := by
    simp [file_updateRequest_self, h]
  have hended := @file_endRunInput_self _ id r _ hupd rfl
  rw [heq, ← file_row]
  unfold Store.ended
  rw [file_addAudit_closing _ hrec.closes, hended]
  rfl

/-- A row after a sweep over other rows and itself. -/
theorem expireAll_row {ids : List Nat} (hnodup : ids.Nodup) (h : s.requests[id]? = some r) :
    (ids.foldl (expireRequest operator cutoff ttl extra auditNow) s).requests[id]? =
      if id ∈ ids then some (Closing.row r (.expire cutoff ttl)) else some r := by
  by_cases hmem : id ∈ ids
  · rw [if_pos hmem]
    induction ids generalizing s with
    | nil => cases hmem
    | cons other ids ih =>
      obtain ⟨hnot, hrest⟩ := List.nodup_cons.mp hnodup
      rw [List.foldl_cons]
      by_cases hid : id = other
      · subst hid
        rw [← file_row, expireAll_file_notMem _ _ _ _ _ hnot, file_row]
        exact expireRequest_row h
      · refine ih hrest ?_ (List.mem_of_ne_of_mem hid hmem)
        rw [← file_row, expireRequest_file_ne _ _ _ _ _ hid, file_row]
        exact h
  · rw [if_neg hmem, ← file_row, expireAll_file_notMem _ _ _ _ _ hmem, file_row]
    exact h

variable {locked : List Nat}

theorem sweptRows_due {tenantId : Nat} {due : ApprovalRequest → Bool}
    (hmem : id ∈ sweptRows s tenantId locked due) (h : s.requests[id]? = some r) :
    due r = true := by
  have hsel := (List.mem_filter.mp hmem).2
  rw [h] at hsel
  simp only [Bool.and_eq_true] at hsel
  exact hsel.1.2

variable {s' : Store} {r' : ApprovalRequest}

theorem expireStaleRequests_row
    (hs : expireStaleRequests operator cutoff auditNow ttl locked s = .ok s')
    (h : s.requests[id]? = some r) (h' : s'.requests[id]? = some r') :
    r' = r ∨ (deadlineHasPassed r cutoff ttl = true ∧
      r' = Closing.row r (.expire cutoff ttl)) := by
  unfold expireStaleRequests at hs
  split at hs
  · cases hs
  · cases hs
    rw [expireAll_row (sweptRows_nodup ..) h] at h'
    split at h'
    · rename_i hmem
      exact .inr ⟨sweptRows_due hmem h, (Option.some.inj h').symm⟩
    · exact .inl (Option.some.inj h').symm

theorem expireOlderReleaseRequests_row {settings : Settings} {releaseId : String}
    (hs : expireOlderReleaseRequests settings operator releaseId cutoff auditNow locked s = .ok s')
    (h : s.requests[id]? = some r) (h' : s'.requests[id]? = some r') :
    r' = r ∨ r' = Closing.row r (.expire cutoff (some (resolveDefaultTtl settings))) := by
  unfold expireOlderReleaseRequests at hs
  split at hs
  · cases hs
  · cases hs
    rw [expireAll_row (sweptRows_nodup ..) h] at h'
    split at h'
    · exact .inr (Option.some.inj h').symm
    · exact .inl (Option.some.inj h').symm

theorem resolveIdempotentRequest_row (a : CreateArgs) (key : String) (h : s.requests[id]? = some r)
    (h' : (resolveIdempotentRequest a key s).2.requests[id]? = some r') :
    r' = r ∨ (deadlineHasPassed r a.lookupNow (some (resolveDefaultTtl a.settings)) = true ∧
      r' = Closing.row r (.expire a.expireNow (some (resolveDefaultTtl a.settings)))) := by
  have hsame : s.requests[id]? = some r' → r' = r := fun hrow =>
    Option.some.inj (hrow.symm.trans h)
  unfold resolveIdempotentRequest at h'
  split at h'
  · exact .inl (hsame h')
  · rename_i holder hfind
    split at h'
    · exact .inl (hsame h')
    · rename_i existing hexisting
      split at h'
      · rename_i hover
        simp only [isOverduePending, Bool.and_eq_true, decide_eq_true_eq] at hover
        by_cases hid : id = holder
        · subst hid
          rw [h] at hexisting
          obtain rfl := Option.some.inj hexisting
          rw [expireRequest_row h] at h'
          exact .inr ⟨hover.2, (Option.some.inj h').symm⟩
        · rw [← file_row, expireRequest_file_ne _ _ _ _ _ hid, file_row] at h'
          exact .inl (hsame h')
      · exact .inl (hsame h')

theorem insertRequest_row (D : Deployment) (a : CreateArgs) (h : s.requests[id]? = some r) :
    (insertRequest D a s).requests[id]? = some r := by
  have hlt := (List.getElem?_eq_some_iff.mp h).1
  rw [← file_row, insertRequest_file_ne D a (Nat.ne_of_lt hlt), file_row]
  exact h

theorem createPendingRequest_row {D : Deployment} {a : CreateArgs} {newId : Nat}
    (hs : createPendingRequest D a s = .ok (newId, s')) (h : s.requests[id]? = some r)
    (h' : s'.requests[id]? = some r') :
    r' = r ∨ (deadlineHasPassed r a.lookupNow (some (resolveDefaultTtl a.settings)) = true ∧
      r' = Closing.row r (.expire a.expireNow (some (resolveDefaultTtl a.settings)))) := by
  unfold createPendingRequest at hs
  split at hs
  · cases hs
    rw [insertRequest_row D a h] at h'
    exact .inl (Option.some.inj h').symm
  · rename_i key hkey
    have hlookup := @resolveIdempotentRequest_row s id r r' a key h
    split at hs
    · rename_i holder existing s₁ hresolve
      obtain ⟨id₂, -, heq⟩ := except_map_eq_ok hs
      cases heq
      rw [hresolve] at hlookup
      exact hlookup h'
    · rename_i s₁ hresolve
      rw [hresolve] at hlookup
      rcases insertIdempotentRequest_ok hs with ⟨winner, -, -, rfl⟩ | ⟨-, rfl⟩
      · exact hlookup h'
      · apply hlookup
        have hsome : (s₁.requests[id]?).isSome = true := by
          have hstay : ∃ r₁, s₁.requests[id]? = some r₁ := by
            rcases resolveIdempotentRequest_cases a key s with ⟨_, _, _, _, heq⟩ | ⟨s₂, hfree, heq⟩
            · rw [hresolve] at heq
              cases heq
            · rw [hresolve] at heq
              cases heq
              obtain ⟨r₁, hr₁, -⟩ := (hfree.file id).later h
              exact ⟨r₁, hr₁⟩
          obtain ⟨r₁, hr₁⟩ := hstay
          rw [hr₁]
          rfl
        obtain ⟨r₁, hr₁⟩ := Option.isSome_iff_exists.mp hsome
        rw [insertRequest_row D a hr₁] at h'
        rw [hr₁]
        exact h'

/-- Ending the input of a request changes no status. -/
theorem endRunInput_status (other : Nat) (request : ApprovalRequest)
    (h : s.requests[id]? = some r) :
    ∃ r', (s.endRunInput other request).requests[id]? = some r' ∧ r'.status = r.status := by
  unfold Store.endRunInput
  cases paramsWithSecretFieldsHidden request.params with
  | none => exact ⟨r, h, rfl⟩
  | some hidden =>
    by_cases hid : id = other
    · subst hid
      refine ⟨{ r with params := some hidden }, ?_, rfl⟩
      simp only [← file_row, file_updateRequest_self]
      show Option.map _ s.requests[id]? = _
      rw [h]
      rfl
    · refine ⟨r, ?_, rfl⟩
      rw [← file_row, file_updateRequest_ne _ _ hid]
      exact h

theorem updateRequest_status (other : Nat) {f : ApprovalRequest → ApprovalRequest}
    (hf : ∀ r, (f r).status = r.status) (h : s.requests[id]? = some r) :
    ∃ r', (s.updateRequest other f).requests[id]? = some r' ∧ r'.status = r.status := by
  by_cases hid : id = other
  · subst hid
    refine ⟨f r, ?_, hf r⟩
    rw [← file_row, file_updateRequest_self, file_row, h]
    rfl
  · refine ⟨r, ?_, rfl⟩
    rw [← file_row, file_updateRequest_ne _ _ hid]
    exact h

theorem Move.status {p p' : Proc} {es : List Event} (hm : Move s p s' p' es)
    (h : s.requests[id]? = some r) : ∃ r', s'.requests[id]? = some r' ∧ r'.status = r.status := by
  cases hm with
  | quiet _ hrows => exact ⟨r, hrows ▸ h, rfl⟩
  | claim | record => exact updateRequest_status _ (fun _ => rfl) h
  | reclaim _ _ _ hs' =>
    rw [← file_row, hs', file_row]
    exact updateRequest_status _ (fun _ => rfl) h
  | start | stop => exact ⟨r, h, rfl⟩
  | @mint _ _ minted approval now _ hs =>
    obtain ⟨-, -, -, rfl⟩ := consumeRemoteWriteApproval_some hs
    have hclaim : ∀ r : ApprovalRequest, { r with resumedAt := some now }.status = r.status :=
      fun _ => rfl
    obtain ⟨r₁, hr₁, hstatus⟩ := updateRequest_status minted hclaim h
    obtain ⟨r₂, hr₂, hstatus'⟩ := endRunInput_status minted approval hr₁
    exact ⟨r₂, hr₂, hstatus'.trans hstatus⟩

theorem ended_row {other : Nat} {request : ApprovalRequest} {f : ApprovalRequest → ApprovalRequest}
    {row : AuditRow} {status : Status} (hother : s.requests[other]? = some request)
    (hparams : (f request).params = request.params) (hrec : row.Records other status)
    (h' : (s.ended other request f row).requests[id]? = some r') :
    s.requests[id]? = some r' ∨ r'.status = (f request).status := by
  by_cases hid : id = other
  · subst hid
    have hupd : ((s.updateRequest id f).file id).row = some (f request) := by
      simp [file_updateRequest_self, hother]
    rw [← file_row] at h'
    unfold Store.ended at h'
    rw [file_addAudit_closing _ hrec.closes, file_endRunInput_self _ hupd hparams] at h'
    obtain rfl := Option.some.inj h'
    exact .inr rfl
  · rw [← file_row, ended_file_ne hrec hid, file_row] at h'
    exact .inl h'

end Rows

theorem FileStep.row_of_expired {id : Nat} {f g : File} (h : FileStep id f g) {r : ApprovalRequest}
    (hr : f.row = some r) (hexpired : r.status = .expired) : g.row = some r := by
  have hne : r.status ≠ .approved ∧ r.status ≠ .pending := by simp [hexpired]
  cases h with
  | queue hq =>
    cases hq with
    | keep => exact hr
    | create => cases hr
    | close c hp =>
      cases hr
      exact absurd hp hne.2
  | claim now hs | record result hs | reclaim hs => cases hr; exact absurd hs hne.1

/-- How an action closes a waiting row: it is one of the three kinds that expire it and leaves
the row that the expiry writes, it approves it, or it ends it otherwise. -/
inductive Closes (D : Deployment) (s : Store) (id : Nat) (r : ApprovalRequest) :
    Act → List Event → ApprovalRequest → Prop where
  | expires {a : Act} {es : List Event} (cutoff : Time) (ttl : Option Time)
    (h : a.Expires r cutoff ttl) : Closes D s id r a es (Closing.row r (.expire cutoff ttl))
  | approves {settings : Settings} {clock : ApproveClock} {operator : Operator}
    {params : Option Params} {auth : Option ApprovalAuth} {rule : ApprovalRule} {singleUse : Bool}
    (reason : String)
    (h : ApproveChecks D settings clock id operator params auth s r rule singleUse) :
    Closes D s id r (.approve settings clock id operator params reason auth)
      [.approved id operator rule auth (r.approvedBy operator clock.decided)]
      (r.approvedBy operator clock.decided)
  | ends {a : Act} {es : List Event} {r' : ApprovalRequest}
    (h : r'.status = .rejected ∨ r'.status = .withdrawn) : Closes D s id r a es r'

section
variable (D : Deployment) {w : World} (hw : WorldOk w) {a : Act} {id : Nat} {r r' : ApprovalRequest}
    (h : w.store.requests[id]? = some r) (hpending : r.status = .pending)
    (h' : (worldStep D w a).1.store.requests[id]? = some r')
include D hw h hpending h'

theorem worldStep_closes (hclosed : r'.status ≠ .pending) :
    Closes D w.store id r a (worldStep D w a).2 r' := by
  have hstay : r' ≠ r := fun heq => hclosed (heq ▸ hpending)
  have hsame : w.store.requests[id]? ≠ some r' := fun hrow =>
    hstay (Option.some.inj (hrow.symm.trans h))
  cases a with
  | create args waits fqdn =>
    simp only [worldStep] at h'
    split at h'
    · exact absurd h' hsame
    · rename_i newId s' hs
      have hrow : s'.requests[id]? = some r' := by split at h' <;> exact h'
      rcases createPendingRequest_row hs h hrow with heq | ⟨hdue, rfl⟩
      · exact absurd heq hstay
      -- a park of the same key expires the row it replaces
      · exact .expires _ _ (.retry hdue)
  | approve settings clock requestId operator params reason auth =>
    simp only [worldStep] at h' ⊢
    split at h'
    · exact absurd h' hsame
    · rename_i request rule s' hs
      obtain ⟨_, _, _, hchecks, rfl, rfl⟩ := approveRequest_ok hs
      -- the audit row of the approval leaves the requests as they are
      change ((w.store.updateRequest requestId fun r => r.approvedBy operator clock.decided).requests)[id]?
        = some r' at h'
      rw [← file_row] at h'
      by_cases hid : id = requestId
      · subst hid
        obtain rfl := Option.some.inj (h.symm.trans hchecks.loaded)
        rw [file_updateRequest_self, file_row, h] at h'
        obtain rfl := Option.some.inj h'
        exact .approves reason hchecks
      · rw [file_updateRequest_ne _ _ hid] at h'
        exact absurd h' hsame
  | reject settings decidedNow auditNow requestId operator reason =>
    simp only [worldStep] at h'
    split at h'
    · exact absurd h' hsame
    · rename_i s' hs
      obtain ⟨request, _, hrow, -, rfl⟩ := rejectRequest_ok hs
      rcases ended_row (f := fun r => r.rejectedBy operator decidedNow) hrow rfl
        (auditRow_records operator requestId request auditNow _ .rejected) h' with hold | hstatus
      · exact absurd hold hsame
      · exact .ends (.inl hstatus)
  | withdraw withdrawnNow auditNow requestId operator reason =>
    simp only [worldStep] at h'
    split at h'
    · exact absurd h' hsame
    · rename_i s' hs
      obtain ⟨request, hrow, -, -, rfl⟩ := withdrawRequest_ok hs
      rcases ended_row (f := fun r => r.withdrawnFor reason withdrawnNow) hrow rfl
        (auditRow_records operator requestId request auditNow _ .withdrawn) h' with hold | hstatus
      · exact absurd hold hsame
      · exact .ends (.inr hstatus)
  | expireStale operator cutoff auditNow defaultTtl locked =>
    simp only [worldStep] at h'
    split at h'
    · exact absurd h' hsame
    · rename_i hs
      rcases expireStaleRequests_row hs h h' with heq | ⟨hdue, rfl⟩
      · exact absurd heq hstay
      · exact .expires _ _ (.stale hdue)
  | expireOlderRelease settings operator releaseId cutoff auditNow locked =>
    simp only [worldStep] at h'
    split at h'
    · exact absurd h' hsame
    · rename_i hs
      rcases expireOlderReleaseRequests_row hs h h' with heq | rfl
      · exact absurd heq hstay
      · exact .expires _ _ .olderRelease
  | addTarget | editTarget | deleteTarget | crash | rerun | mint => exact absurd h' hsame
  | resume operator requestId =>
    simp only [worldStep] at h'
    split at h' <;> exact absurd h' hsame
  | advance pid inp =>
    simp only [worldStep] at h'
    split at h'
    · exact absurd h' hsame
    · rename_i p hp
      -- a process never changes the status
      have hmove := procStep_move D inp w.store (hw.first p (List.mem_of_getElem? hp))
      obtain ⟨r₁, hr₁, hstatus⟩ := hmove.status h
      rw [hr₁] at h'
      obtain rfl := Option.some.inj h'
      exact absurd (hstatus.trans hpending) hclosed

theorem worldStep_expires (hexpired : r'.status = .expired) :
    ∃ cutoff ttl, a.Expires r cutoff ttl ∧ r' = Closing.row r (.expire cutoff ttl) := by
  have hcloses := worldStep_closes D hw h hpending h' (by simp [hexpired])
  generalize (worldStep D w a).2 = es at hcloses
  cases hcloses with
  | expires cutoff ttl hexpires => exact ⟨cutoff, ttl, hexpires, rfl⟩
  | approves => cases hexpired
  | ends hends => simp [hexpired] at hends

end

/-! ## Every run -/

/-- The tables with the waiting rows that older releases left. Such a row may have no deadline. -/
def leftOver (waiting : List ApprovalRequest) : Config World Event :=
  ⟨⟨{ Store.empty with requests := waiting }, []⟩, []⟩

theorem exclusive_leftOver {waiting : List ApprovalRequest} (hfresh : ∀ r ∈ waiting, r.Fresh) :
    Exclusive (leftOver waiting) := by
  have hrow : ∀ {id : Nat} {r : ApprovalRequest}, waiting[id]? = some r → r.Fresh := fun h =>
    hfresh _ (List.mem_of_getElem? h)
  refine ⟨⟨?_, fun p hp => (by cases hp), fun p hp => (by cases hp)⟩, ?_⟩
  · intro id
    refine ⟨fun _ => ⟨rfl, rfl⟩, fun r hr => (hrow hr).ok, fun r hr => ?_, fun r hr c hc => ?_⟩
    · rw [ClosedOnce, if_pos (hrow hr).status]
      rfl
    · cases hc
  · intro id
    refine ⟨.unused, .nil, fun r hr => (hrow hr).resumedAt, ?_⟩
    rintro pid h ⟨p, hp, -⟩
    cases hp

theorem exclusive_run (D : Deployment) {c : Config World Event} (h : Exclusive c)
    (acts : List Act) : Exclusive ((queue D).run c acts) :=
  (queue D).run_induct (exclusive_next D) h acts

/-- An expired row is never written again. -/
theorem expired_stays (D : Deployment) {c : Config World Event} (hc : Exclusive c) (acts : List Act)
    {id : Nat} {r : ApprovalRequest} (h : c.state.store.requests[id]? = some r)
    (hexpired : r.status = .expired) :
    ((queue D).run c acts).state.store.requests[id]? = some r := by
  induction acts generalizing c with
  | nil => exact h
  | cons a acts ih =>
    refine ih (exclusive_next D c a hc) ?_
    exact (next_file D hc a id).row_of_expired h hexpired

/-- Both tests of the deadline agree, and in every run, whatever rows were waiting at its start,
the reason read off an expired row is the reason for which it expired. -/
theorem expiry_reason_agrees (D : Deployment) :
    (∀ (request : ApprovalRequest) (cutoff : Time) (defaultTtl : Option Time),
      deadlinePassedClause request cutoff defaultTtl = some true ↔
        deadlineHasPassed request cutoff defaultTtl = true) ∧
    ∀ (waiting : List ApprovalRequest), (∀ r ∈ waiting, r.Fresh) →
      ∀ (before : List Act) (a : Act) (after : List Act),
      (∀ b ∈ before ++ a :: after, b.ClockForward) →
      ∀ (id : Nat) (r r' : ApprovalRequest),
        rowOf ((queue D).run (leftOver waiting) before) id = some r → r.status = .pending →
        rowOf ((queue D).run (leftOver waiting) (before ++ [a])) id = some r' →
        r'.status = .expired →
        ∃ stored,
          rowOf ((queue D).run (leftOver waiting) (before ++ a :: after)) id = some stored ∧
          approvalExpiredReason stored = some (a.expiryReason r) := by
  constructor
  · intro request cutoff defaultTtl
    rw [deadlinePassedClause_eq, Option.some.injEq]
  · intro waiting hfresh before a after hclock id r r' hr hpending hr' hexpired
    have hbefore : Exclusive ((queue D).run (leftOver waiting) before) :=
      exclusive_run D (exclusive_leftOver hfresh) before
    have hstep : (queue D).run (leftOver waiting) (before ++ [a]) =
        (queue D).next ((queue D).run (leftOver waiting) before) a :=
      (queue D).run_append _ _ _
    have hrun : (queue D).run (leftOver waiting) (before ++ a :: after) =
        (queue D).run ((queue D).run (leftOver waiting) (before ++ [a])) after := by
      rw [hstep]
      exact (queue D).run_append _ _ _
    rw [hstep] at hr'
    obtain ⟨cutoff, ttl, hexpires, rfl⟩ :=
      worldStep_expires D hbefore.world hr hpending hr' hexpired
    refine ⟨_, ?_, hexpires.reason (hclock a (by simp))⟩
    rw [hrun, hstep]
    exact expired_stays D (exclusive_next D _ a hbefore) after hr' hexpired

/-- A row of a release that stored no deadline. -/
def undatedRow : ApprovalRequest :=
  { newRequest smallDeployment Store.empty smallCall with expiresAt := none, releaseId := none }

/-- Two requests, one without a deadline, wait when another release starts up. -/
theorem expiry_reason_agrees_upgrade :
    ∀ id < 2, ∃ stored,
      rowOf ((queue smallDeployment).run (leftOver [undatedRow]) [.create smallCall false none,
        .expireOlderRelease Settings.default (expiryOperator 0) "2.0.0" 5 5 []]) id = some stored ∧
      approvalExpiredReason stored = some .releaseChanged := by
  have hrun : ∀ (id : Nat) (r r' : ApprovalRequest),
      rowOf ((queue smallDeployment).run (leftOver [undatedRow]) [.create smallCall false none]) id =
        some r → r.status = .pending →
      rowOf ((queue smallDeployment).run (leftOver [undatedRow]) [.create smallCall false none,
        .expireOlderRelease Settings.default (expiryOperator 0) "2.0.0" 5 5 []]) id = some r' →
      r'.status = .expired → _ :=
    (expiry_reason_agrees smallDeployment).2 [undatedRow]
      (fun r hr => List.mem_singleton.mp hr ▸ ⟨rfl, rfl, rfl, rfl, rfl, rfl, rfl⟩)
      [.create smallCall false none]
      (.expireOlderRelease Settings.default (expiryOperator 0) "2.0.0" 5 5 []) []
      (by
        intro b hb
        rcases List.mem_cons.mp hb with rfl | hb
        · exact Int.le_refl 0
        · obtain rfl := List.mem_singleton.mp hb
          trivial)
  intro id hid
  obtain rfl | rfl : id = 0 ∨ id = 1 := by omega
  · exact hrun 0 _ _ rfl rfl rfl rfl
  · exact hrun 1 _ _ rfl rfl rfl rfl

end Meho.Approval
