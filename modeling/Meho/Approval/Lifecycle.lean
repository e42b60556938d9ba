import Meho.Approval.Files

/- Every write of the queue is one step on every file.

One lemma per function that writes (`..._file`): a decision closes its own
request, a sweep closes each request it selects once, a park opens one request
and may expire one other, a claim, a result and a re-claim write one row, a
custody read only takes custody rows away. The inversions the later modules
need (`createPendingRequest_cases`, `claimResume_true`, `claimRerun_some`,
`consumeHandoff_some`, `consumeRemoteWriteApproval_some`) are here too. -/
namespace Meho.Approval
open Meho.Lib

/-! ## Every write of the queue is a step on every file -/

@[simp] theorem file_row (s : Store) (id : Nat) : (s.file id).row = s.requests[id]? := rfl

variable {s : Store} {id : Nat} {r : ApprovalRequest}

theorem file_eq (h : s.requests[id]? = some r) :
    s.file id = ⟨some r, (s.file id).closings, (s.file id).custody⟩ := by
  rw [← h]; rfl

variable {row : AuditRow}

theorem file_addAudit_policy (s : Store) (h : row.eventClass = .policyDecision) (id : Nat) :
    (s.addAudit row).file id = s.file id := by
  apply file_addAudit_other
  simp [AuditRow.closes, h]

theorem auditRow_records (operator : Operator) (id : Nat) (request : ApprovalRequest)
    (now : Time) (extra : Dict) (status : Status) :
    (auditRow .approvalDecision operator id request status.closingPath status.closingCode now
      extra).Records id status := ⟨rfl, rfl, rfl, rfl⟩

variable {id' : Nat}

theorem AuditRow.Records.closes_ne {status : Status} (h : row.Records id status) (hne : id' ≠ id) :
    row.closes id' = false := by
  simp [AuditRow.closes, h.request, Ne.symm hne]

/-- The tables after a closing that drops the run input, where `f` writes the status columns. -/
def Store.ended (s : Store) (id : Nat) (request : ApprovalRequest)
    (f : ApprovalRequest → ApprovalRequest) (row : AuditRow) : Store :=
  ((s.updateRequest id f).endRunInput id request).addAudit row

variable {f : ApprovalRequest → ApprovalRequest}

theorem ended_file_ne {request : ApprovalRequest} {status : Status} (hrec : row.Records id status)
    (hne : id' ≠ id) : (s.ended id request f row).file id' = s.file id' := by
  unfold Store.ended
  rw [file_addAudit_other _ (hrec.closes_ne hne), file_endRunInput_ne _ _ hne,
    file_updateRequest_ne _ _ hne]

section
variable (c : Closing) (hrow : s.requests[id]? = some r) (hp : r.status = .pending)
    (hparams : (f r).params = r.params)
    (hc : c.row r = { f r with params := hideStoredParams (f r).params })
    (hcustody : ∀ rows, c.custody r rows = rows.filter (·.tenantId ≠ r.tenantId))
    (hrec : row.Records id c.status)
include c hrow hp hparams hc hcustody hrec

theorem ended_file_self : QueueStep id (s.file id) ((s.ended id r f row).file id) := by
  have hupd : ((s.updateRequest id f).file id).row = some (f r) := by
    simp [file_updateRequest_self, hrow]
  unfold Store.ended
  rw [file_addAudit_closing _ hrec.closes, file_endRunInput_self _ hupd hparams,
    file_updateRequest_self, file_eq hrow, ← hc, ← hcustody]
  exact QueueStep.close c hp hrec

theorem ended_file (id' : Nat) : QueueStep id' (s.file id') ((s.ended id r f row).file id') := by
  by_cases hid : id' = id
  · subst hid
    exact ended_file_self c hrow hp hparams hc hcustody hrec
  · exact QueueStep.of_eq (ended_file_ne hrec hid)

end

variable {D : Deployment} {settings : Settings} {requestId : Nat} {reason : String} {s' : Store}

theorem approveRequest_file {clock : ApproveClock} {operator : Operator} {params : Option Params}
    {auth : Option ApprovalAuth} {rule : ApprovalRule}
    (h : approveRequest D settings clock requestId operator params reason auth s = (.ok (r, rule), s'))
    (id : Nat) : QueueStep id (s.file id) (s'.file id) := by
  obtain ⟨request, singleUse, delegation, hchecks, -, rfl⟩ := approveRequest_ok h
  have hrec : (auditRow .approvalDecision operator requestId request .decision 200 clock.audit
      (approveExtra D.hashing operator request rule reason auth singleUse delegation)).Records
      requestId .approved := auditRow_records _ _ _ _ _ .approved
  by_cases hid : id = requestId
  · subst hid
    rw [file_addAudit_closing _ hrec.closes, file_updateRequest_self, file_eq hchecks.loaded]
    exact QueueStep.close (.approve operator clock.decided) hchecks.pending hrec
  · apply QueueStep.of_eq
    rw [file_addAudit_other _ (hrec.closes_ne hid), file_updateRequest_ne _ _ hid]

theorem rejectRequest_file {decidedNow auditNow : Time} {operator : Operator}
    (h : rejectRequest settings decidedNow auditNow requestId operator reason s = (.ok (), s'))
    (id : Nat) : QueueStep id (s.file id) (s'.file id) := by
  obtain ⟨request, delegation, hrow, hp, rfl⟩ := rejectRequest_ok h
  exact ended_file (.reject operator decidedNow) hrow hp rfl rfl (fun _ => rfl)
    (auditRow_records operator requestId request auditNow _ .rejected) id

theorem withdrawRequest_file {withdrawnNow auditNow : Time} {operator : Operator}
    (h : withdrawRequest withdrawnNow auditNow requestId operator reason s = (.ok (), s'))
    (id : Nat) : QueueStep id (s.file id) (s'.file id) := by
  obtain ⟨request, hrow, hp, -, rfl⟩ := withdrawRequest_ok h
  exact ended_file (.withdraw reason withdrawnNow) hrow hp rfl rfl (fun _ => rfl)
    (auditRow_records operator requestId request auditNow _ .withdrawn) id

/-! ### Expiry -/

section Expiry
variable (operator : Operator) (cutoff auditNow : Time) (ttl : Option Time)
  (extra : ApprovalRequest → Dict)

variable {s : Store} {id : Nat}

theorem expireRequest_eq {r : ApprovalRequest} (h : s.requests[id]? = some r) :
    ∃ row : AuditRow, row.Records id .expired ∧
      expireRequest operator cutoff ttl extra auditNow s id =
        s.ended id r (fun r => r.expiredAt cutoff ttl) row := by
  simp only [expireRequest, h]
  exact ⟨_, auditRow_records operator id r auditNow _ .expired, rfl⟩

theorem expireRequest_file {r : ApprovalRequest} (h : s.requests[id]? = some r)
    (hp : r.status = .pending) (id' : Nat) :
    QueueStep id' (s.file id')
      ((expireRequest operator cutoff ttl extra auditNow s id).file id') := by
  obtain ⟨row, hrec, heq⟩ := expireRequest_eq operator cutoff auditNow ttl extra h
  rw [heq]
  exact ended_file (.expire cutoff ttl) h hp rfl rfl (fun _ => rfl) hrec id'

theorem expireRequest_file_ne {id' : Nat} (hne : id' ≠ id) :
    (expireRequest operator cutoff ttl extra auditNow s id).file id' = s.file id' := by
  cases hrow : s.requests[id]? with
  | none => simp only [expireRequest, hrow]
  | some r =>
    obtain ⟨row, hrec, heq⟩ := expireRequest_eq operator cutoff auditNow ttl extra hrow
    rw [heq]
    exact ended_file_ne hrec hne

theorem expireAll_file_notMem {ids : List Nat} {id' : Nat} (h : id' ∉ ids) :
    (ids.foldl (expireRequest operator cutoff ttl extra auditNow) s).file id' = s.file id' := by
  induction ids generalizing s with
  | nil => rfl
  | cons id ids ih =>
    rw [List.foldl_cons, ih (fun hm => h (List.mem_cons_of_mem _ hm))]
    exact expireRequest_file_ne _ _ _ _ _ (fun heq => h (heq ▸ List.mem_cons_self))

theorem expireAll_file {ids : List Nat} (hnodup : ids.Nodup)
    (hp : ∀ id ∈ ids, ∃ r, s.requests[id]? = some r ∧ r.status = .pending) (id' : Nat) :
    QueueStep id' (s.file id')
      ((ids.foldl (expireRequest operator cutoff ttl extra auditNow) s).file id') := by
  induction ids generalizing s with
  | nil => exact QueueStep.refl _ _
  | cons id ids ih =>
    rw [List.foldl_cons]
    obtain ⟨hnot, hrest⟩ := List.nodup_cons.mp hnodup
    by_cases hid : id' = id
    · subst hid
      obtain ⟨r, hr, hpend⟩ := hp id' List.mem_cons_self
      rw [expireAll_file_notMem _ _ _ _ _ hnot]
      exact expireRequest_file _ _ _ _ _ hr hpend id'
    · have hframe : ∀ x, x ≠ id →
          (expireRequest operator cutoff ttl extra auditNow s id).file x = s.file x :=
        fun x hx => expireRequest_file_ne _ _ _ _ _ hx
      rw [← hframe id' hid]
      refine ih hrest ?_
      intro x hx
      obtain ⟨r, hr, hpend⟩ := hp x (List.mem_cons_of_mem _ hx)
      have hxid : x ≠ id := fun heq => hnot (heq ▸ hx)
      refine ⟨r, ?_, hpend⟩
      rw [← file_row, hframe x hxid]
      exact hr

end Expiry

theorem sweptRows_nodup (s : Store) (tenantId : Nat) (locked : List Nat)
    (due : ApprovalRequest → Bool) : (sweptRows s tenantId locked due).Nodup :=
  List.nodup_range.filter _

variable {tenantId : Nat} {locked : List Nat}

theorem sweptRows_pending {due : ApprovalRequest → Bool} (h : id ∈ sweptRows s tenantId locked due) :
    ∃ r, s.requests[id]? = some r ∧ r.status = .pending := by
  have hsel := (List.mem_filter.mp h).2
  cases hr : s.requests[id]? with
  | none => rw [hr] at hsel; cases hsel
  | some r =>
    rw [hr] at hsel
    simp only [Bool.and_eq_true, decide_eq_true_eq] at hsel
    exact ⟨r, rfl, hsel.1.1.1⟩

theorem expireStaleRequests_file {operator : Operator} {cutoff auditNow : Time} {ttl : Option Time}
    (h : expireStaleRequests operator cutoff auditNow ttl locked s = .ok s') (id : Nat) :
    QueueStep id (s.file id) (s'.file id) := by
  unfold expireStaleRequests at h
  split at h
  · cases h
  · cases h
    exact expireAll_file _ _ _ _ _ (sweptRows_nodup ..) (fun _ hm => sweptRows_pending hm) id

theorem expireOlderReleaseRequests_file {operator : Operator} {releaseId : String}
    {cutoff auditNow : Time}
    (h : expireOlderReleaseRequests settings operator releaseId cutoff auditNow locked s = .ok s')
    (id : Nat) : QueueStep id (s.file id) (s'.file id) := by
  unfold expireOlderReleaseRequests at h
  split at h
  · cases h
  · cases h
    exact expireAll_file _ _ _ _ _ (sweptRows_nodup ..) (fun _ hm => sweptRows_pending hm) id

/-! ### Parking -/

theorem insertRequest_file_ne (D : Deployment) (a : CreateArgs) (hne : id ≠ s.requests.length) :
    (insertRequest D a s).file id = s.file id := by
  have hrow : ∀ r : ApprovalRequest, (s.requests ++ [r])[id]? = s.requests[id]? := by
    intro r
    rcases Nat.lt_or_gt_of_ne hne with hlt | hgt
    · exact List.getElem?_append_left hlt
    · rw [List.getElem?_eq_none (by simp; omega), List.getElem?_eq_none (by omega)]
  unfold insertRequest
  simp only
  split
  · rw [file_addAudit_policy _ rfl]
    simp [Store.file, Store.storeHandoff, hrow, Ne.symm hne]
  · rw [file_addAudit_policy _ rfl]
    simp [Store.file, hrow]

/-- The row a park inserts, with its custody handle when it has one. -/
def insertedRow (D : Deployment) (s : Store) (a : CreateArgs) : ApprovalRequest :=
  { newRequest D s a with
    executionHandle :=
      if D.classifyOp a.opId = "credential_write" then some s.nextHandle else none }

/-- The custody rows a park inserts. -/
def insertedCustody (D : Deployment) (s : Store) (a : CreateArgs) : List CustodyRow :=
  if D.classifyOp a.opId = "credential_write" then
    [⟨s.nextHandle, s.requests.length, a.operator.tenantId, ⟨a.params, a.resumeParent⟩⟩]
  else []

theorem insertRequest_file_new (D : Deployment) (a : CreateArgs)
    (hempty : s.file s.requests.length = ⟨none, [], []⟩) :
    (insertRequest D a s).file s.requests.length =
      ⟨some (insertedRow D s a), [], insertedCustody D s a⟩ := by
  have hclosings : s.audit.filter (·.closes s.requests.length) = [] := congrArg File.closings hempty
  have hcustody : s.custody.filter (·.requestId = s.requests.length) = [] :=
    congrArg File.custody hempty
  unfold insertRequest insertedRow insertedCustody
  simp only
  split
  · rw [file_addAudit_policy _ rfl]
    simp only [Store.file, Store.storeHandoff, hclosings, List.filter_append, hcustody]
    simp [newRequest]
  · rw [file_addAudit_policy _ rfl]
    simp only [Store.file, hclosings, hcustody]
    simp [newRequest]

theorem insertRequest_file (D : Deployment) (a : CreateArgs)
    (hok : FileOk s.requests.length (s.file s.requests.length)) (id : Nat) :
    QueueStep id (s.file id) ((insertRequest D a s).file id) := by
  by_cases hid : id = s.requests.length
  · subst hid
    have hnone : s.requests[s.requests.length]? = none := List.getElem?_eq_none (Nat.le_refl _)
    obtain ⟨hc, hk⟩ := hok.empty hnone
    have hempty : s.file s.requests.length = ⟨none, [], []⟩ := by
      rw [← hnone, ← hc, ← hk]; rfl
    rw [insertRequest_file_new D a hempty, hempty]
    refine QueueStep.create ?_ ?_
    · exact ⟨rfl, rfl, rfl, rfl, rfl, rfl, rfl⟩
    · intro c hc
      unfold insertedCustody at hc
      split at hc
      · rw [List.mem_singleton.mp hc]; rfl
      · cases hc
  · exact QueueStep.of_eq (insertRequest_file_ne D a hid)

/-- The overdue holder of an idempotency key was expired, or nothing happened. -/
def KeyFreed (s s₁ : Store) : Prop :=
  s₁ = s ∨ ∃ id r operator cutoff ttl now, s.requests[id]? = some r ∧ r.status = .pending ∧
    s₁ = expireRequest operator cutoff ttl (fun _ => []) now s id

variable {s₁ : Store}

theorem KeyFreed.file (h : KeyFreed s s₁) (id : Nat) : QueueStep id (s.file id) (s₁.file id) := by
  obtain rfl | ⟨id₁, r, operator, cutoff, ttl, now, hr, hp, rfl⟩ := h
  · exact QueueStep.refl _ _
  · exact expireRequest_file _ _ _ _ _ hr hp id

/-- The row that holds the key of a call, for a retry of that call. -/
structure KeyHolder (D : Deployment) (a : CreateArgs) (r : ApprovalRequest) : Prop where
  tenantId : r.tenantId = a.operator.tenantId
  opId : r.opId = a.opId
  connectorId : r.connectorId = a.connectorId
  targetId : r.targetId = a.targetId
  paramsHash : paramsHashMatches D.hashing a.params r.paramsHash = true
  previewHash : r.previewHash = a.previewHash

theorem findIdempotentRequest_tenant {sub key : String}
    (h : findIdempotentRequest s tenantId sub key = some id) (hr : s.requests[id]? = some r) :
    r.tenantId = tenantId := by
  obtain ⟨hlt, hsel, -⟩ := List.findIdx?_eq_some_iff_getElem.mp h
  rw [List.getElem?_eq_getElem hlt] at hr
  cases hr
  simp only [Bool.and_eq_true, decide_eq_true_eq] at hsel
  exact hsel.1.1.1

variable {a : CreateArgs}

theorem reuseIdempotentRequest_ok (h : reuseIdempotentRequest D.hashing a id r = .ok id')
    (ht : r.tenantId = a.operator.tenantId) : id' = id ∧ KeyHolder D a r := by
  unfold reuseIdempotentRequest at h
  split at h
  · rename_i hsame
    obtain ⟨hop, hcon, htar, hpar, hprev, -⟩ := hsame
    cases h
    exact ⟨rfl, ht, hop, hcon, htar, hpar, hprev⟩
  · cases h

theorem insertIdempotentRequest_ok {key : String}
    (h : insertIdempotentRequest D a key s = .ok (id, s')) :
    (∃ r, s.requests[id]? = some r ∧ KeyHolder D a r ∧ s' = s) ∨
      (id = s.requests.length ∧ s' = insertRequest D a s) := by
  unfold insertIdempotentRequest at h
  split at h
  · cases h; exact .inr ⟨rfl, rfl⟩
  · rename_i id₁ hfind
    split at h
    · cases h; exact .inr ⟨rfl, rfl⟩
    · rename_i winner hw
      obtain ⟨id₂, hre, heq⟩ := except_map_eq_ok h
      cases heq
      obtain ⟨rfl, hholder⟩ := reuseIdempotentRequest_ok hre (findIdempotentRequest_tenant hfind hw)
      exact .inl ⟨winner, hw, hholder, rfl⟩

/-- The lookup of the key: a usable holder, or a key that is free now. -/
theorem resolveIdempotentRequest_cases (a : CreateArgs) (key : String) (s : Store) :
    (∃ id r, s.requests[id]? = some r ∧ r.tenantId = a.operator.tenantId ∧
      resolveIdempotentRequest a key s = (some (id, r), s)) ∨
    (∃ s₁, KeyFreed s s₁ ∧ resolveIdempotentRequest a key s = (none, s₁)) := by
  unfold resolveIdempotentRequest
  split
  · exact .inr ⟨s, .inl rfl, rfl⟩
  · rename_i id hfind
    split
    · exact .inr ⟨s, .inl rfl, rfl⟩
    · rename_i existing hr
      split
      · rename_i hover
        simp only [isOverduePending, Bool.and_eq_true, decide_eq_true_eq] at hover
        exact .inr ⟨_, .inr ⟨id, existing, _, _, _, _, hr, hover.1, rfl⟩, rfl⟩
      · exact .inl ⟨id, existing, hr, findIdempotentRequest_tenant hfind hr, rfl⟩

/-- What a park did: it freed the key if an overdue request held it, and then either handed
back the live holder or inserted the row. -/
theorem createPendingRequest_cases (h : createPendingRequest D a s = .ok (id, s')) :
    ∃ s₁, KeyFreed s s₁ ∧
      ((∃ r, s₁.requests[id]? = some r ∧ KeyHolder D a r ∧ a.idempotencyKey.isSome = true ∧
          s' = s₁) ∨
        (id = s₁.requests.length ∧ s' = insertRequest D a s₁)) := by
  unfold createPendingRequest at h
  split at h
  · cases h
    exact ⟨s, .inl rfl, .inr ⟨rfl, rfl⟩⟩
  · rename_i key hkey
    have hsome : a.idempotencyKey.isSome = true := by rw [hkey]; rfl
    obtain ⟨id₁, r, hr, ht, heq⟩ | ⟨s₁, hfree, heq⟩ := resolveIdempotentRequest_cases a key s
    · rw [heq] at h
      obtain ⟨id₂, hre, hid⟩ := except_map_eq_ok h
      cases hid
      obtain ⟨rfl, hholder⟩ := reuseIdempotentRequest_ok hre ht
      exact ⟨_, .inl rfl, .inl ⟨r, hr, hholder, hsome, rfl⟩⟩
    · rw [heq] at h
      refine ⟨s₁, hfree, (insertIdempotentRequest_ok h).imp_left ?_⟩
      rintro ⟨r, hr, hholder, hs⟩
      exact ⟨r, hr, hholder, hsome, hs⟩

/-- Freeing the key and inserting the row, in one transaction, take one step on each file: the
row that is expired is never the one that is opened. -/
theorem KeyFreed.insert_file (hok : ∀ id, FileOk id (s.file id)) (hfree : KeyFreed s s₁) (id : Nat) :
    QueueStep id (s.file id) ((insertRequest D a s₁).file id) := by
  have hok₁ : ∀ x, FileOk x (s₁.file x) := fun x => (hfree.file x).ok (hok x)
  by_cases hid : id = s₁.requests.length
  · have hsame : s₁.file id = s.file id := by
      obtain rfl | ⟨x, r, operator, cutoff, ttl, now, hr, hp, rfl⟩ := hfree
      · rfl
      · apply expireRequest_file_ne
        intro hx
        subst hx
        obtain ⟨r', hr', -⟩ :=
          (expireRequest_file operator cutoff now ttl (fun _ => []) hr hp id).later hr
        have hlt := (List.getElem?_eq_some_iff.mp hr').1
        omega
    rw [← hsame]
    exact insertRequest_file D a (hok₁ _) id
  · rw [insertRequest_file_ne D a hid]
    exact hfree.file id

theorem createPendingRequest_file (hok : ∀ id, FileOk id (s.file id))
    (h : createPendingRequest D a s = .ok (id, s')) (id' : Nat) :
    QueueStep id' (s.file id') (s'.file id') := by
  obtain ⟨s₁, hfree, ⟨r, -, -, -, rfl⟩ | ⟨-, rfl⟩⟩ := createPendingRequest_cases h
  · exact hfree.file id'
  · exact hfree.insert_file hok id'

/-! ### Claims, results, custody -/

variable {now : Time}

theorem claimResume_true (h : claimResume now id s = (true, s')) :
    ∃ r, s.requests[id]? = some r ∧ r.status = .approved ∧ r.resumedAt = none ∧
      s' = s.updateRequest id (·.claimedAt now) := by
  unfold claimResume at h
  split at h
  · cases h
  · rename_i r hr
    split at h
    · rename_i hguard
      obtain ⟨hn, hs⟩ := hguard
      cases h
      exact ⟨r, hr, hs, Option.isNone_iff_eq_none.mp hn, rfl⟩
    · cases h

theorem claimResume_false (h : claimResume now id s = (false, s')) : s' = s := by
  unfold claimResume at h
  split at h
  · cases h; rfl
  · split at h
    · cases h
    · cases h; rfl

theorem claimRerun_some {j : Job} {count : Nat} (h : claimRerun j s = (some count, s')) :
    ∃ r, s.requests[j.requestId]? = some r ∧ r.status = .approved ∧
      r.rerunCount = j.request.rerunCount ∧ r.resumeResult.map resultOk = some false ∧
      count = r.rerunCount + 1 ∧ s' = s.updateRequest j.requestId (·.reclaimed) := by
  unfold claimRerun at h
  split at h
  · cases h
  · rename_i r hr
    split at h
    · rename_i hguard
      obtain ⟨hs, hc, hf⟩ := hguard
      cases h
      exact ⟨r, hr, hs, hc, hf, rfl, rfl⟩
    · cases h

theorem claimRerun_none {j : Job} (h : claimRerun j s = (none, s')) : s' = s := by
  unfold claimRerun at h
  split at h
  · cases h; rfl
  · split at h
    · cases h
    · cases h; rfl

theorem updateRequest_file
    (h : FileStep id (s.file id) { s.file id with row := (s.file id).row.map f }) (id' : Nat) :
    FileStep id' (s.file id') ((s.updateRequest id f).file id') := by
  by_cases hid : id' = id
  · subst hid
    rw [file_updateRequest_self]
    exact h
  · exact FileStep.of_eq (file_updateRequest_ne _ _ hid)

section
variable (hr : s.requests[id]? = some r) (hs : r.status = .approved)
include hr hs

theorem claim_file (hn : r.resumedAt = none) (id' : Nat) :
    FileStep id' (s.file id') ((s.updateRequest id (·.claimedAt now)).file id') := by
  apply updateRequest_file
  rw [file_eq hr]
  exact FileStep.claim now hs hn (List.Sublist.refl _)

theorem reclaim_file (hf : r.resumeResult.map resultOk = some false) (id' : Nat) :
    FileStep id' (s.file id') ((s.updateRequest id (·.reclaimed)).file id') := by
  apply updateRequest_file
  rw [file_eq hr]
  exact FileStep.reclaim hs hf

theorem record_file {result : Dict} (hn : r.resumedAt.isSome = true) (he : r.resumeResult = none)
    (id' : Nat) : FileStep id' (s.file id') ((persistResumeResult id result s).file id') := by
  apply updateRequest_file
  rw [file_eq hr]
  exact FileStep.record result hs hn he

end

theorem discardHandoff_file (s : Store) (id tenantId id' : Nat) :
    QueueStep id' (s.file id') ((s.discardHandoff id tenantId).file id') := by
  by_cases hid : id' = id
  · subst hid
    rw [file_discardHandoff_self]
    exact QueueStep.keep _ List.filter_sublist
  · exact QueueStep.of_eq (file_discardHandoff_ne _ _ hid)

section
variable {handle : Nat} {payload : HandoffPayload}
    (h : consumeHandoff handle id tenantId s = some (payload, s'))
include h

theorem consumeHandoff_some :
    (∃ c ∈ s.custody, c.handle = handle ∧ c.requestId = id ∧ c.payload = payload) ∧
      s'.requests = s.requests ∧ s' = { s with custody := s.custody.filter (·.handle ≠ handle) } := by
  unfold consumeHandoff at h
  obtain ⟨c, hc, heq⟩ := Option.map_eq_some_iff.mp h
  have hsel := List.find?_some hc
  simp only [decide_eq_true_eq] at hsel
  cases heq
  exact ⟨⟨c, List.mem_of_find?_eq_some hc, hsel.1, hsel.2.1, rfl⟩, rfl, rfl⟩

theorem consumeHandoff_file (id' : Nat) : QueueStep id' (s.file id') (s'.file id') := by
  obtain ⟨-, -, rfl⟩ := consumeHandoff_some h
  refine QueueStep.keep (s.file id') ?_
  exact List.Sublist.filter _ List.filter_sublist

end

theorem consumeRemoteWriteApproval_some {approval : ApprovalRequest}
    (h : consumeRemoteWriteApproval now id approval s = some s') :
    ∃ r, s.requests[id]? = some r ∧ r.resumedAt = none ∧
      s' = (s.updateRequest id fun r => { r with resumedAt := some now }).endRunInput id
        approval := by
  unfold consumeRemoteWriteApproval at h
  split at h
  · cases h
  · rename_i r hr
    split at h
    · rename_i hn
      cases h
      exact ⟨r, hr, Option.isNone_iff_eq_none.mp hn, rfl⟩
    · cases h

/-- The mint's transaction on the row it read: the row is claimed and its custody row goes. -/
theorem mint_file_self (hr : s.requests[id]? = some r) :
    ((s.updateRequest id fun r => { r with resumedAt := some now }).endRunInput id r).file id =
      ⟨some (r.claimedAt now), (s.file id).closings,
        (s.file id).custody.filter (·.tenantId ≠ r.tenantId)⟩ := by
  have hupd : ((s.updateRequest id fun r => { r with resumedAt := some now }).file id).row =
      some { r with resumedAt := some now } := by
    simp [file_updateRequest_self, hr]
  have hparams : ({ r with resumedAt := some now } : ApprovalRequest).params = r.params := rfl
  rw [file_endRunInput_self _ hupd hparams, file_updateRequest_self]
  rfl

theorem mint_file_ne (r : ApprovalRequest) (hne : id' ≠ id) :
    ((s.updateRequest id fun r => { r with resumedAt := some now }).endRunInput id r).file id' =
      s.file id' := by
  rw [file_endRunInput_ne _ _ hne, file_updateRequest_ne _ _ hne]

theorem mint_file (hr : s.requests[id]? = some r) (hs : r.status = .approved)
    (hn : r.resumedAt = none) (id' : Nat) :
    FileStep id' (s.file id')
      (((s.updateRequest id fun r => { r with resumedAt := some now }).endRunInput id r).file
        id') := by
  by_cases hid : id' = id
  · subst hid
    rw [mint_file_self hr, file_eq hr]
    exact FileStep.claim now hs hn List.filter_sublist
  · exact FileStep.of_eq (mint_file_ne r hid)

/-! ### Only a park adds a row, and the audit log only grows -/

/-- No request is added, and no audit row is taken away. -/
structure Store.Keeps (s s' : Store) : Prop where
  length : s'.requests.length = s.requests.length
  audit : s.audit ⊆ s'.audit

theorem Store.Keeps.refl (s : Store) : s.Keeps s := ⟨rfl, List.Subset.refl _⟩

theorem Store.Keeps.trans {s'' : Store} (h : s.Keeps s') (h' : s'.Keeps s'') : s.Keeps s'' :=
  ⟨h'.length.trans h.length, List.Subset.trans h.audit h'.audit⟩

theorem keeps_updateRequest (s : Store) (id : Nat) (f : ApprovalRequest → ApprovalRequest) :
    s.Keeps (s.updateRequest id f) :=
  ⟨by simp [Store.updateRequest], List.Subset.refl _⟩

theorem keeps_addAudit (s : Store) (row : AuditRow) : s.Keeps (s.addAudit row) :=
  ⟨rfl, List.subset_append_left _ _⟩

theorem keeps_discardHandoff (s : Store) (id tenantId : Nat) :
    s.Keeps (s.discardHandoff id tenantId) :=
  ⟨rfl, List.Subset.refl _⟩

theorem keeps_endRunInput (s : Store) (id : Nat) (request : ApprovalRequest) :
    s.Keeps (s.endRunInput id request) := by
  unfold Store.endRunInput
  split
  · exact (keeps_discardHandoff s id _).trans (keeps_updateRequest _ id _)
  · exact keeps_discardHandoff s id _

/-- A row is written, its run input dropped, and an audit row added: what every closing does. -/
theorem keeps_closed (s : Store) (id : Nat) (f : ApprovalRequest → ApprovalRequest)
    (request : ApprovalRequest) (row : AuditRow) :
    s.Keeps (((s.updateRequest id f).endRunInput id request).addAudit row) := by
  have hwritten := keeps_updateRequest s id f
  have hdropped := keeps_endRunInput (s.updateRequest id f) id request
  exact (hwritten.trans hdropped).trans (keeps_addAudit _ row)

section
variable (operator : Operator) (cutoff auditNow : Time) (ttl : Option Time)
    (extra : ApprovalRequest → Dict)
include operator cutoff auditNow ttl extra

theorem expireRequest_keeps (s : Store) (id : Nat) :
    s.Keeps (expireRequest operator cutoff ttl extra auditNow s id) := by
  unfold expireRequest
  split
  · exact Store.Keeps.refl s
  · exact keeps_closed s id _ _ _

theorem expireAll_keeps (ids : List Nat) (s : Store) :
    s.Keeps (ids.foldl (expireRequest operator cutoff ttl extra auditNow) s) := by
  induction ids generalizing s with
  | nil => exact Store.Keeps.refl s
  | cons id ids ih =>
    rw [List.foldl_cons]
    exact (expireRequest_keeps _ _ _ _ _ s id).trans (ih _)

end

theorem length_insertRequest (D : Deployment) (a : CreateArgs) (s : Store) :
    (insertRequest D a s).requests.length = s.requests.length + 1 := by
  unfold insertRequest
  simp only
  split <;> simp [Store.addAudit, Store.storeHandoff]

theorem insertRequest_audit (D : Deployment) (a : CreateArgs) (s : Store) :
    s.audit ⊆ (insertRequest D a s).audit := by
  unfold insertRequest
  simp only
  split <;> simp [Store.addAudit, Store.storeHandoff]

theorem KeyFreed.keeps (h : KeyFreed s s₁) : s.Keeps s₁ := by
  obtain rfl | ⟨id, r, operator, cutoff, ttl, now, -, -, rfl⟩ := h
  · exact Store.Keeps.refl _
  · exact expireRequest_keeps _ _ _ _ _ _ _

theorem KeyFreed.targets (h : KeyFreed s s₁) : s₁.targets = s.targets := by
  obtain rfl | ⟨id, r, operator, cutoff, ttl, now, hr, -, rfl⟩ := h
  · rfl
  · simp only [expireRequest, hr, Store.addAudit, Store.endRunInput]
    split <;> rfl

theorem createPendingRequest_audit (h : createPendingRequest D a s = .ok (id, s')) :
    s.audit ⊆ s'.audit := by
  obtain ⟨s₁, hfree, hcases⟩ := createPendingRequest_cases h
  rcases hcases with ⟨r, -, -, -, rfl⟩ | ⟨-, rfl⟩
  · exact hfree.keeps.audit
  · exact List.Subset.trans hfree.keeps.audit (insertRequest_audit D a s₁)

end Meho.Approval
