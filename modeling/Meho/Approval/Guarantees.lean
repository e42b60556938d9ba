import Meho.Approval.Exclusive

/- What the approval queue promises for every interleaving.

The statements are about every list of actions of `queue`: any number of
parks, decisions, sweeps, resumes, waiters, re-runs and mints, by any number of
processes, each stopped at any point or not. They are read off the simulation
 by tickets (`exclusive_of_reachable`) and the file steps (`next_file`). -/
namespace Meho.Approval
open Meho.Lib

variable (D : Deployment)

/-- The history of a list of actions. -/
def history (acts : List Act) : Config World Event := (queue D).run (queue D).begin_ acts

theorem exclusive_history (acts : List Act) : Exclusive (history D acts) :=
  exclusive_of_reachable D ⟨acts, rfl⟩

/-- The row of a request in a configuration. -/
def rowOf (c : Config World Event) (id : Nat) : Option ApprovalRequest :=
  c.state.store.requests[id]?

/-- The audit rows that closed a request. -/
def closingsOf (c : Config World Event) (id : Nat) : List AuditRow :=
  (c.state.store.file id).closings

/-! ## The marks of a history -/

/-- The event starts a run of the request. -/
def Event.isRun (id : Nat) : Event → Bool
  | .started id' _ _ _ => id' = id
  | .minted id' _ => id' = id
  | _ => false

/-- The event starts its first run: an operator resume, an agent's waiter or a mint. -/
def Event.isFirstRun (id : Nat) : Event → Bool
  | .started id' path _ _ => id' = id && path ≠ .rerun
  | .minted id' _ => id' = id
  | _ => false

/-- Any two marks of a request that stand in this order may do so. -/
theorem marks_precede (acts : List Act) (id : Nat) :
    (history D acts).events.Pairwise fun e f =>
      ∀ m, e.mark id = some m → ∀ n, f.mark id = some n → Ticket.Precedes m n := by
  obtain ⟨t, hrun, -⟩ := (exclusive_history D acts).tickets id
  exact List.pairwise_filterMap.mp hrun.precedes

/-- Only a re-run has an attempt number. -/
theorem started_attempt (acts : List Act) {id attempt : Nat} {path : RunPath} {call : Call}
    (h : .started id path attempt call ∈ (history D acts).events) (hpath : path ≠ .rerun) :
    attempt = 0 := by
  let P : Config World Event → Prop := fun c => ∀ id path attempt call,
    .started id path attempt call ∈ c.events → path ≠ .rerun → attempt = 0
  have hstep : ∀ c a, P c → P ((queue D).next c a) := by
    intro c a hc id path attempt call he hp
    rw [Machine.next_events] at he
    rcases List.mem_append.mp he with hold | hnew
    · exact hc id path attempt call hold hp
    · obtain ⟨pid, inp, j, target, params, parent, -, -, -, rfl, rfl, -⟩ :=
        worldStep_started D hnew
      exact j.firstRun hp
  have hbegin : P (queue D).begin_ := fun _ _ _ _ he => by cases he
  exact (queue D).reach_induct hbegin hstep ⟨acts, rfl⟩ id path attempt call h hpath

theorem mark_of_isRun {id : Nat} {e : Event} (h : e.isRun id = true) :
    (∃ n, e.mark id = some (.start n)) ∨ e.mark id = some .spend := by
  cases e with
  | started id' path attempt call =>
    simp only [Event.isRun, decide_eq_true_eq] at h
    exact .inl ⟨attempt, by simp [Event.mark, h]⟩
  | minted id' call =>
    simp only [Event.isRun, decide_eq_true_eq] at h
    exact .inr (by simp [Event.mark, h])
  | _ => cases h

/-- The mark of a first run. -/
theorem mark_of_isFirstRun (acts : List Act) {id : Nat} {e : Event}
    (he : e ∈ (history D acts).events) (h : e.isFirstRun id = true) :
    e.mark id = some (.start 0) ∨ e.mark id = some .spend := by
  cases e with
  | started id' path attempt call =>
    simp only [Event.isFirstRun, Bool.and_eq_true, decide_eq_true_eq] at h
    obtain ⟨rfl, hpath⟩ := h
    have hzero := started_attempt D acts he hpath
    exact .inl (by simp [Event.mark, hzero])
  | minted id' call =>
    simp only [Event.isFirstRun, decide_eq_true_eq] at h
    exact .inr (by simp [Event.mark, h])
  | _ => cases h

theorem length_filter_le_one {α : Type} {p : α → Bool} {l : List α}
    (h : l.Pairwise fun a b => ¬(p a = true ∧ p b = true)) : (l.filter p).length ≤ 1 := by
  have hf := h.sublist (List.filter_sublist (p := p))
  match hl : l.filter p with
  | [] => simp
  | [x] => simp
  | x :: y :: rest =>
    have hx : x ∈ l.filter p := by rw [hl]; simp
    have hy : y ∈ l.filter p := by rw [hl]; simp
    rw [hl, List.pairwise_cons] at hf
    exact absurd ⟨(List.mem_filter.mp hx).2, (List.mem_filter.mp hy).2⟩ (hf.1 y List.mem_cons_self)

/-- A request whose run has started is approved. -/
theorem isRun_approved (acts : List Act) {id : Nat} {e : Event}
    (he : e ∈ (history D acts).events) (h : e.isRun id = true) :
    ∃ r, rowOf (history D acts) id = some r ∧ r.status = .approved ∧
      r.resumedAt.isSome = true := by
  obtain ⟨t, hrun, hsim⟩ := (exclusive_history D acts).tickets id
  have hmark : ∃ m, m ∈ marks id (history D acts).events := by
    rcases mark_of_isRun h with ⟨n, hm⟩ | hm
    · exact ⟨_, List.mem_filterMap.mpr ⟨e, he, hm⟩⟩
    · exact ⟨_, List.mem_filterMap.mpr ⟨e, he, hm⟩⟩
  obtain ⟨m, hm⟩ := hmark
  have hallow := hrun.allows m hm
  cases t with
  | unused => exact hallow.elim
  | held n stage =>
    obtain ⟨⟨r, hr, hc, -⟩, -⟩ := hsim
    exact ⟨r, hr, hc.status, hc.resumedAt⟩
  | ended n ok =>
    obtain ⟨⟨r, result, hr, hc, -⟩, -⟩ := hsim
    exact ⟨r, hr, hc.status, hc.resumedAt⟩
  | spent =>
    obtain ⟨⟨r, n, hr, hc, -⟩, -⟩ := hsim
    exact ⟨r, hr, hc.status, hc.resumedAt⟩

/-- `resumed_at` is set at most once, never cleared, and only while the request is approved; at
most one of the three paths starts the first run, and none starts a run of a request that
is not approved. -/
theorem first_run_exactly_once (acts : List Act) (id : Nat) :
    -- a new row is unclaimed
    (∀ a r', rowOf (history D acts) id = none →
      rowOf (history D (acts ++ [a])) id = some r' → r'.resumedAt = none) ∧
    -- one action sets `resumed_at` on an approved row that has none, or leaves it
    (∀ a r, rowOf (history D acts) id = some r →
      ∃ r', rowOf (history D (acts ++ [a])) id = some r' ∧
        (r'.resumedAt = r.resumedAt ∨
          (r.resumedAt = none ∧ r'.resumedAt.isSome = true ∧ r.status = .approved ∧
            r'.status = .approved))) ∧
    -- once set it never changes again
    (∀ later r, rowOf (history D acts) id = some r → r.resumedAt.isSome = true →
      ∃ r', rowOf (history D (acts ++ later)) id = some r' ∧ r'.resumedAt = r.resumedAt) ∧
    -- one first run
    ((history D acts).events.filter (·.isFirstRun id)).length ≤ 1 ∧
    -- whatever started is approved, and was never rejected, withdrawn or expired
    (∀ e ∈ (history D acts).events, e.isRun id = true →
      ∃ r, rowOf (history D acts) id = some r ∧ r.status = .approved) := by
  have hex := exclusive_history D acts
  have happend : ∀ later,
      history D (acts ++ later) = (queue D).run (history D acts) later := by
    intro later
    exact Machine.run_append _ _ _ _
  refine ⟨?_, ?_, ?_, ?_, ?_⟩
  · intro a r' hnone hr'
    rw [happend] at hr'
    exact ((next_file D hex a id).opened hnone hr').1.resumedAt
  · intro a r hr
    rw [happend]
    exact (next_file D hex a id).resumedAt hr
  · intro later r hr hset
    rw [happend]
    obtain ⟨r', hr', hl⟩ := run_later D hex later hr
    exact ⟨r', hr', hl.resumedAt hset⟩
  · apply length_filter_le_one
    refine (marks_precede D acts id).imp_of_mem ?_
    rintro e f he hf hpre ⟨hfe, hff⟩
    rcases mark_of_isFirstRun D acts he hfe with hm | hm <;>
      rcases mark_of_isFirstRun D acts hf hff with hn | hn
    · exact absurd (hpre _ hm _ hn) (Nat.lt_irrefl 0)
    · exact hpre _ hm _ hn
    · exact hpre _ hm _ hn
    · exact hpre _ hm _ hn
  · intro e he hrun
    obtain ⟨r, hr, hs, -⟩ := isRun_approved D acts he hrun
    exact ⟨r, hr, hs⟩

/-- Runs of one request never overlap, no run starts after a successful result, and the attempt
numbers of successive runs grow. -/
theorem reruns_never_overlap (acts : List Act) (id : Nat) :
    -- two processes never run the request at once
    (∀ (pid₁ pid₂ : Nat) (j₁ j₂ : Job), (history D acts).state.procs[pid₁]? = some (.running j₁) →
      (history D acts).state.procs[pid₂]? = some (.running j₂) → j₁.requestId = id →
      j₂.requestId = id → pid₁ = pid₂) ∧
    -- a run that starts finds every earlier run ended, also one whose process is gone
    (∀ before path n call, before ++ [.started id path n call] <+: (history D acts).events →
      ∀ path' m call', .started id path' m call' ∈ before → .ended id m ∈ before) ∧
    -- nothing starts after a result in state ok
    ((history D acts).events.Pairwise fun e f => ∀ result, e = .recorded id result →
      resultOk result = true → ∀ path n call, f ≠ .started id path n call) ∧
    -- the attempts of successive runs grow, and are the row's `rerun_count`
    ((history D acts).events.Pairwise fun e f => ∀ path m call path' n call',
      e = .started id path m call → f = .started id path' n call' → m < n) ∧
    (∀ (pid : Nat) (j : Job), (history D acts).state.procs[pid]? = some (.running j) →
      j.requestId = id →
      ∃ r, rowOf (history D acts) id = some r ∧ r.rerunCount = j.attempt) := by
  obtain ⟨t, hrun, hsim⟩ := (exclusive_history D acts).tickets id
  have hholds : ∀ (pid : Nat) (j : Job), (history D acts).state.procs[pid]? = some (.running j) →
      (history D acts).state.Holds pid ⟨j.requestId, j.attempt, .running⟩ :=
    fun pid j hp => ⟨.running j, hp, rfl⟩
  refine ⟨?_, ?_, ?_, ?_, ?_⟩
  · intro pid₁ pid₂ j₁ j₂ h₁ h₂ hid₁ hid₂
    obtain ⟨stage, rfl, -⟩ := hsim.holder (hholds pid₁ j₁ h₁) hid₁
    exact hsim.2.2 pid₁ pid₂ _ _ (hholds pid₁ j₁ h₁) (hholds pid₂ j₂ h₂) hid₁ hid₂
  · intro before path n call hpre path' m call' hm
    have hmarks : marks id before ++ [.start n] <+: marks id (history D acts).events := by
      obtain ⟨rest, hrest⟩ := hpre
      refine ⟨marks id rest, ?_⟩
      rw [← hrest, marks_append, marks_append]
      simp [marks, Event.mark]
    have hstart : Mark.start m ∈ marks id before :=
      List.mem_filterMap.mpr ⟨_, hm, by simp [Event.mark]⟩
    obtain ⟨e, he, hmark⟩ := List.mem_filterMap.mp (hrun.stopped hmarks hstart)
    cases e with
    | ended id' attempt =>
      simp only [Event.mark] at hmark
      split at hmark
      · rename_i hid
        cases hmark
        exact hid ▸ he
      · cases hmark
    | started id' path attempt call | recorded id' result | minted id' call =>
      simp only [Event.mark] at hmark
      split at hmark <;> cases hmark
    | _ => cases hmark
  · refine (marks_precede D acts id).imp ?_
    rintro e f hpre result rfl hok path n call rfl
    have := hpre (.result (resultOk result)) (by simp [Event.mark]) (.start n)
      (by simp [Event.mark])
    rw [hok] at this
    cases this
  · refine (marks_precede D acts id).imp ?_
    rintro e f hpre path m call path' n call' rfl rfl
    exact hpre (.start m) (by simp [Event.mark]) (.start n) (by simp [Event.mark])
  · intro pid j hp hid
    obtain ⟨stage, rfl, -⟩ := hsim.holder (hholds pid j hp) hid
    obtain ⟨⟨r, hr, hc, -⟩, -⟩ := hsim
    exact ⟨r, hr, hc.rerunCount⟩

/-- In every reachable state a row's columns fit its status and its closing is on record; every
action keeps the status or closes a waiting request with one audit row; a decision that
raises leaves the tables as they are. -/
theorem approval_lifecycle (acts : List Act) (id : Nat) :
    (∀ r, rowOf (history D acts) id = some r →
      r.Ok ∧ ClosedOnce id r.status (closingsOf (history D acts) id)) ∧
    (∀ a r', rowOf (history D acts) id = none →
      rowOf (history D (acts ++ [a])) id = some r' →
      r'.status = .pending ∧ closingsOf (history D (acts ++ [a])) id = []) ∧
    (∀ a r, rowOf (history D acts) id = some r →
      ∃ r', rowOf (history D (acts ++ [a])) id = some r' ∧
        ((r'.status = r.status ∧ closingsOf (history D (acts ++ [a])) id =
            closingsOf (history D acts) id) ∨
          (r.status = .pending ∧ r'.status ≠ .pending ∧ ∃ row : AuditRow,
            closingsOf (history D (acts ++ [a])) id =
              closingsOf (history D acts) id ++ [row] ∧ row.Records id r'.status))) ∧
    (∀ settings clock operator params reason auth e s',
      approveRequest D settings clock id operator params reason auth
        (history D acts).state.store = (.error e, s') → s' = (history D acts).state.store) ∧
    (∀ settings decidedNow auditNow operator reason e s',
      rejectRequest settings decidedNow auditNow id operator reason
        (history D acts).state.store = (.error e, s') → s' = (history D acts).state.store) ∧
    (∀ withdrawnNow auditNow operator reason e s',
      withdrawRequest withdrawnNow auditNow id operator reason
        (history D acts).state.store = (.error e, s') → s' = (history D acts).state.store) := by
  have hex := exclusive_history D acts
  have hnext : ∀ a, history D (acts ++ [a]) = (queue D).next (history D acts) a := by
    intro a
    exact Machine.run_append _ _ _ _
  refine ⟨?_, ?_, ?_, ?_, ?_, ?_⟩
  · intro r hr
    exact ⟨(hex.world.files id).row r hr, (hex.world.files id).closings r hr⟩
  · intro a r' hnone hr'
    rw [hnext] at hr' ⊢
    -- a row that appears is pending, and nothing has closed it
    obtain ⟨hfresh, hclosings⟩ := (next_file D hex a id).opened hnone hr'
    exact ⟨hfresh.status, hclosings⟩
  · intro a r hr
    rw [hnext]
    exact (next_file D hex a id).status hr
  · intro settings clock operator params reason auth e s' h
    exact approveRequest_raisesClean _ _ _ _ _ _ _ _ _ e s' h
  · intro settings decidedNow auditNow operator reason e s' h
    exact rejectRequest_raisesClean _ _ _ _ _ _ _ e s' h
  · intro withdrawnNow auditNow operator reason e s' h
    exact withdrawRequest_raisesClean _ _ _ _ _ _ e s' h

/-! ## A small installation, for the runs the later modules look at -/

/-- A person of the first tenant. -/
def person (sub : String) (role : TenantRole) : Operator :=
  { expiryOperator 0 with sub := sub, tenantRole := role }

/-- The params hash names the keys and the target hash the host; no operation writes
credentials and none has a role floor. -/
def smallDeployment : Deployment where
  hashing := ⟨fun p => String.join (p.map (·.1)), fun _ => [], (·.host), id⟩
  floors := fun _ => none
  classifyOp := fun _ => "write"

def smallSettings (host : String) : TargetSettings where
  product := "vmware"
  host := host
  port := none
  fqdn := none
  secretRef := none
  secretFieldMap := none
  authModel := "shared_service_account"
  vpnRequired := false
  verifyTls := true
  tlsCaPin := none
  tlsServerName := none
  extras := []

/-- A person asks for a change on the first target. -/
def smallCall : CreateArgs where
  operator := person "asker" .operator
  connectorId := "vmware-1"
  opId := "vm.power.reset"
  targetId := some 0
  params := [("vm", .str "vm-7")]
  paramsHash := "vm"
  proposedEffect := none
  expiresAt := none
  previewHash := none
  resumeParent := none
  idempotencyKey := none
  requester := none
  revealSecret := false
  workRef := none
  runningReleaseId := none
  settings := Settings.default
  lookupNow := 0
  expireNow := 0
  createdAt := 0
  auditNow := 0

/-- Nothing changed outside the database, and the dispatch succeeds. -/
def smallInp : Inp where
  now := 10
  settings := Settings.default
  draining := false
  runningReleaseId := none
  workRef := none
  previewNow := none
  objectNow := none
  mintReady := true
  writeFails := false
  outcome := .returned [("status", .str "ok")]

/-- A second person approves the first request. -/
def smallApprove : Act :=
  .approve Settings.default ⟨1, 1, 1, 1⟩ 0 (person "reviewer" .operator) none "" none

end Meho.Approval
