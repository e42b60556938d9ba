import Meho.Lib.Ticket
import Meho.Approval.Lifecycle

/- What one step of a process does to the claims on requests.

A process that won the run claim, or the re-run claim, holds the request until
it has stored a result (`Proc.hold`). `Move` lists what a step can do: nothing
to any claim, win one, win one again, start the run, end it, store its result,
mint. `procStep_move` is the inversion of the step function; the proofs about
claims go by cases on `Move` and never unfold a step. Before it stands what every step
keeps of the tables (`procStep_keeps`, `worldStep_keeps`).

The last part says where the processes of a world come from
(`worldStep_procs`), with the rule for what every process knows of the tables
(`knowledge_step`). -/
namespace Meho.Approval
open Meho.Lib

/-! ## Who holds a request -/

/-- How far the holder of a claim is. -/
inductive Phase where
  | waiting
  | running
  | ended
  deriving DecidableEq, Repr

/-- A claim on a request: which attempt, and how far. -/
structure Hold where
  requestId : Nat
  attempt : Nat
  phase : Phase

/-- The claim a process holds. -/
def Proc.hold : Proc → Option Hold
  | .takeInput j _ => some ⟨j.requestId, j.attempt, .waiting⟩
  | .checkPreview j _ _ _ => some ⟨j.requestId, j.attempt, .waiting⟩
  | .startRun j _ _ _ => some ⟨j.requestId, j.attempt, .waiting⟩
  | .running j => some ⟨j.requestId, j.attempt, .running⟩
  | .storeResult j _ => some ⟨j.requestId, j.attempt, .ended⟩
  | .refuseDiscard j _ => some ⟨j.requestId, j.attempt, .ended⟩
  | .refuseAudit j _ => some ⟨j.requestId, j.attempt, .ended⟩
  | .refuseStore j _ => some ⟨j.requestId, j.attempt, .ended⟩
  | _ => none

/-- `h'` is the same claim, as far as `h` or given up before the run. -/
structure Hold.Onward (h h' : Hold) : Prop where
  requestId : h'.requestId = h.requestId
  attempt : h'.attempt = h.attempt
  phase : h'.phase = h.phase ∨ (h.phase = .waiting ∧ h'.phase = .ended)

theorem Hold.Onward.refl (h : Hold) : h.Onward h := ⟨rfl, rfl, .inl rfl⟩

/-- Some process stands at the re-run claim of the request. -/
def World.AtRerunClaim (w : World) (id : Nat) : Prop :=
  ∃ j target params, Proc.rerunClaim j target params ∈ w.procs ∧ j.requestId = id

/-- What an event says about the ticket of a request. -/
def Event.mark (id : Nat) : Event → Option Mark
  | .started id' _ attempt _ => if id' = id then some (.start attempt) else none
  | .ended id' attempt => if id' = id then some (.stop attempt) else none
  | .recorded id' result => if id' = id then some (.result (resultOk result)) else none
  | .minted id' _ => if id' = id then some .spend else none
  | _ => none

/-- The marks a list of events leaves on a request. -/
def marks (id : Nat) (es : List Event) : List Mark := es.filterMap (·.mark id)

theorem marks_append (id : Nat) (xs ys : List Event) :
    marks id (xs ++ ys) = marks id xs ++ marks id ys := List.filterMap_append

/-! ## What one step keeps -/

section Keeps
variable (D : Deployment) {id : Nat} {s' : Store}

theorem claimResume_keeps {now : Time} {s : Store} {won : Bool}
    (h : claimResume now id s = (won, s')) : s.Keeps s' := by
  cases won with
  | false =>
    rw [claimResume_false h]
    exact Store.Keeps.refl s
  | true =>
    obtain ⟨r, -, -, -, rfl⟩ := claimResume_true h
    exact keeps_updateRequest s id _

theorem claimRerun_keeps {j : Job} {s : Store} {count : Option Nat}
    (h : claimRerun j s = (count, s')) : s.Keeps s' := by
  cases count with
  | none =>
    rw [claimRerun_none h]
    exact Store.Keeps.refl s
  | some count =>
    obtain ⟨r, -, -, -, -, -, rfl⟩ := claimRerun_some h
    exact keeps_updateRequest s j.requestId _

theorem consumeHandoff_keeps {handle tenantId : Nat} {payload : HandoffPayload} {s : Store}
    (h : consumeHandoff handle id tenantId s = some (payload, s')) : s.Keeps s' := by
  obtain ⟨-, -, rfl⟩ := consumeHandoff_some h
  exact ⟨rfl, List.Subset.refl _⟩

theorem takeInputStep_keeps (s : Store) (j : Job) (target : Option CallTarget) :
    s.Keeps (takeInputStep D s j target).1 := by
  unfold takeInputStep
  repeat' split
  all_goals first
    | exact Store.Keeps.refl s
    | exact keeps_discardHandoff s _ _
    | (apply consumeHandoff_keeps; assumption)

theorem procStep_keeps (inp : Inp) (s : Store) (p : Proc) :
    s.Keeps (procStep D inp s p).1 := by
  cases p with
  | takeClaim j target =>
    simp only [procStep]
    split
    · exact Store.Keeps.refl s
    · split
      · rename_i hc; exact claimResume_keeps hc
      · rename_i hc; exact claimResume_keeps hc
  | takeInput j target => exact takeInputStep_keeps D s j target
  | storeResult j result | refuseStore j cause =>
    simp only [procStep]
    split
    · exact Store.Keeps.refl s
    · exact keeps_updateRequest s j.requestId _
  | refuseClaim j cause =>
    simp only [procStep]
    split
    · rename_i hc; exact claimResume_keeps hc
    · rename_i hc; exact claimResume_keeps hc
  | refuseDiscard j cause => exact keeps_discardHandoff s _ _
  | refuseAudit j cause =>
    simp only [procStep]
    split
    · exact Store.Keeps.refl s
    · exact keeps_addAudit s _
  | rerunRefuse j code statusCode => exact keeps_addAudit s _
  | rerunClaim j target params =>
    simp only [procStep]
    split
    · rename_i hc; exact claimRerun_keeps hc
    · rename_i hc; exact (claimRerun_keeps hc).trans (keeps_addAudit _ _)
  | mintClaim call id approval =>
    simp only [procStep]
    split
    · exact Store.Keeps.refl s
    · rename_i hc
      obtain ⟨r, -, -, rfl⟩ := consumeRemoteWriteApproval_some hc
      exact (keeps_updateRequest s id _).trans (keeps_endRunInput _ id approval)
  | _ =>
    -- the other points only read
    simp only [procStep]
    repeat' split
    all_goals exact Store.Keeps.refl s

variable {w : World} {a : Act}

/-- The settings of the target a call names, as the table has them. -/
def callSettings (s : Store) (args : CreateArgs) : Option TargetSettings :=
  args.targetId.bind fun id =>
    (s.resolveTargetById args.operator.tenantId id).map fun t => t.settings

theorem worldStep_create {args : CreateArgs} (waits : Bool) (fqdn : Option String)
    (h : createPendingRequest D args w.store = .ok (id, s')) :
    (worldStep D w (.create args waits fqdn)).1.store = s' ∧
      (worldStep D w (.create args waits fqdn)).2 =
        if w.store.requests.length ≤ id then [.parked id args (callSettings w.store args)]
        else [] := by
  simp only [worldStep, h]
  cases waits with
  | true | false => exact ⟨rfl, rfl⟩

theorem worldStep_create_error {args : CreateArgs} {waits : Bool} {fqdn : Option String}
    {e : ApprovalError} (h : createPendingRequest D args w.store = .error e) :
    worldStep D w (.create args waits fqdn) = (w, []) := by
  simp only [worldStep, h]

theorem worldStep_keeps (w : World) (h : ∀ args waits fqdn, a ≠ .create args waits fqdn) :
    w.store.Keeps (worldStep D w a).1.store := by
  cases a with
  | create args waits fqdn => exact absurd rfl (h args waits fqdn)
  | approve settings clock id operator params reason auth =>
    simp only [worldStep]
    split
    · exact Store.Keeps.refl _
    · rename_i hc
      obtain ⟨request, singleUse, delegation, -, -, rfl⟩ := approveRequest_ok hc
      exact (keeps_updateRequest w.store id _).trans (keeps_addAudit _ _)
  | reject settings decidedNow auditNow id operator reason =>
    simp only [worldStep]
    split
    · exact Store.Keeps.refl _
    · rename_i hc
      obtain ⟨request, delegation, -, -, rfl⟩ := rejectRequest_ok hc
      exact keeps_closed w.store id _ _ _
  | withdraw withdrawnNow auditNow id operator reason =>
    simp only [worldStep]
    split
    · exact Store.Keeps.refl _
    · rename_i hc
      obtain ⟨request, -, -, -, rfl⟩ := withdrawRequest_ok hc
      exact keeps_closed w.store id _ _ _
  | expireStale operator cutoff auditNow defaultTtl locked =>
    simp only [worldStep, expireStaleRequests]
    split
    · exact Store.Keeps.refl _
    · rename_i hc
      -- without the lock the sweep does nothing
      split at hc
      · cases hc
      · cases hc
        exact expireAll_keeps _ _ _ _ _ _ _
  | expireOlderRelease settings operator releaseId cutoff auditNow locked =>
    simp only [worldStep, expireOlderReleaseRequests]
    split
    · exact Store.Keeps.refl _
    · rename_i hc
      split at hc
      · cases hc
      · cases hc
        exact expireAll_keeps _ _ _ _ _ _ _
  | advance pid inp =>
    simp only [worldStep]
    split
    · exact Store.Keeps.refl _
    · exact procStep_keeps D inp w.store _
  | resume operator id =>
    simp only [worldStep]
    split
    · exact Store.Keeps.refl _
    · exact Store.Keeps.refl _
  | _ => exact ⟨rfl, List.Subset.refl _⟩

theorem worldStep_audit (w : World) (a : Act) : w.store.audit ⊆ (worldStep D w a).1.store.audit := by
  by_cases hcreate : ∃ args waits fqdn, a = .create args waits fqdn
  · obtain ⟨args, waits, fqdn, rfl⟩ := hcreate
    cases hc : createPendingRequest D args w.store with
    | error e =>
      rw [worldStep_create_error D hc]
      exact List.Subset.refl _
    | ok res =>
      rw [(worldStep_create D waits fqdn hc).1]
      exact createPendingRequest_audit hc
  · exact (worldStep_keeps D w fun args waits fqdn heq => hcreate ⟨args, waits, fqdn, heq⟩).audit

end Keeps

/-! ## What one step of a process does to the claims -/

/-- What a statement of one path may do to the rows. -/
inductive Move (s : Store) (p : Proc) : Store → Proc → List Event → Prop where
  | quiet {s' : Store} {p' : Proc} {es : List Event}
    (hf : ∀ id, QueueStep id (s.file id) (s'.file id)) (hrows : s'.requests = s.requests)
    (hh : ∀ h', p'.hold = some h' → ∃ h, p.hold = some h ∧ h.Onward h')
    (hm : ∀ call id approval, p' = .mintClaim call id approval →
      s.requests[id]? = some approval ∧ approval.status = .approved)
    (he : ∀ id, marks id es = []) : Move s p s' p' es
  | claim {p' : Proc} {h : Hold} {r : ApprovalRequest} {now : Time}
    (hr : s.requests[h.requestId]? = some r) (hs : r.status = .approved)
    (hn : r.resumedAt = none) (hp : p'.hold = some h) (ha : h.attempt = 0)
    (hph : h.phase ≠ .running) :
    Move s p (s.updateRequest h.requestId (·.claimedAt now)) p' []
  | reclaim {s' : Store} {p' : Proc} {h : Hold} {r : ApprovalRequest}
    (hr : s.requests[h.requestId]? = some r) (hs : r.status = .approved)
    (hfail : r.resumeResult.map resultOk = some false)
    (hs' : ∀ id, s'.file id = (s.updateRequest h.requestId (·.reclaimed)).file id)
    (hp : p'.hold = some h) (ha : h.attempt = r.rerunCount + 1) (hph : h.phase ≠ .running)
    (hj : ∃ j target params, p = .rerunClaim j target params ∧ j.requestId = h.requestId) :
    Move s p s' p' []
  | start {p' : Proc} {h : Hold} {path : RunPath} {call : Call} (hp : p.hold = some h)
    (hw : h.phase = .waiting) (hp' : p'.hold = some { h with phase := .running }) :
    Move s p s p' [.started h.requestId path h.attempt call]
  | stop {p' : Proc} {h : Hold} (hp : p.hold = some h) (hrun : h.phase = .running)
    (hp' : p'.hold = none ∨ p'.hold = some { h with phase := .ended })
    (hm : ∀ call id approval, p' ≠ .mintClaim call id approval) :
    Move s p s p' [.ended h.requestId h.attempt]
  | record {h : Hold} {result : Dict} {es : List Event} (hp : p.hold = some h)
    (hover : h.phase = .ended)
    (he : ∀ id, marks id es = if h.requestId = id then [.result (resultOk result)] else []) :
    Move s p (persistResumeResult h.requestId result s) .done es
  | mint {s' : Store} {call : MintCall} {id : Nat} {approval : ApprovalRequest} {now : Time}
    (hp : p = .mintClaim call id approval)
    (hs : consumeRemoteWriteApproval now id approval s = some s') :
    Move s p s' .done [.minted id call.call]

variable {p : Proc}

theorem Move.idle {s : Store} {p' : Proc} (hh : p'.hold = none)
    (hm : ∀ call id approval, p' ≠ .mintClaim call id approval) : Move s p s p' [] := by
  refine .quiet (fun _ => .refl _ _) rfl ?_
    (fun call id approval h => absurd h (hm call id approval)) (fun _ => rfl)
  intro h' hh'
  rw [hh] at hh'
  cases hh'

variable {s' : Store}

/-- A step of a holder that takes custody rows or writes other audit rows. -/
theorem Move.holder {s : Store} {p' : Proc} {h h' : Hold} (hp : p.hold = some h)
    (hp' : p'.hold = some h') (ho : h.Onward h') (hf : ∀ id, QueueStep id (s.file id) (s'.file id))
    (hrows : s'.requests = s.requests) : Move s p s' p' [] := by
  refine .quiet hf hrows ?_ ?_ (fun _ => rfl)
  · intro x hx
    rw [hp'] at hx
    cases hx
    exact ⟨h, hp, ho⟩
  · intro call id approval heq
    rw [heq] at hp'
    cases hp'

theorem addAudit_policy_file (s : Store) {row : AuditRow} (h : row.eventClass = .policyDecision)
    (id : Nat) : QueueStep id (s.file id) ((s.addAudit row).file id) :=
  .of_eq (file_addAudit_policy s h id)

/-! ## Every step of a process is a move -/

section Steps
variable (D : Deployment) (inp : Inp) (s : Store)

theorem resumeStartStep_idle (operator : Operator) (id : Nat) (request : ApprovalRequest)
    (params : Option Params) :
    (resumeStartStep inp operator id request params).hold = none ∧
      ∀ call id' approval,
        resumeStartStep inp operator id request params ≠ .mintClaim call id' approval := by
  unfold resumeStartStep
  simp only
  repeat' split
  all_goals exact ⟨rfl, by simp⟩

theorem waiterStartStep_idle (operator : Operator) (id : Nat) (call : CallArguments) :
    (waiterStartStep inp s operator id call).hold = none ∧
      ∀ mint id' approval, waiterStartStep inp s operator id call ≠ .mintClaim mint id' approval := by
  unfold waiterStartStep
  simp only
  repeat' split
  all_goals exact ⟨rfl, by simp⟩

theorem rerunStartStep_idle (operator : Operator) (id : Nat) (params : Option Params) :
    (rerunStartStep D inp s operator id params).hold = none ∧
      ∀ call id' approval,
        rerunStartStep D inp s operator id params ≠ .mintClaim call id' approval := by
  unfold rerunStartStep
  simp only
  repeat' split
  all_goals exact ⟨rfl, by simp⟩

theorem rerunTargetStep_idle (j : Job) (params : Params) :
    (rerunTargetStep D inp s j params).hold = none ∧
      ∀ call id approval, rerunTargetStep D inp s j params ≠ .mintClaim call id approval := by
  unfold rerunTargetStep
  repeat' split
  all_goals exact ⟨rfl, by simp⟩

/-- A run that raised stores its error or stops. -/
theorem afterRaise_cases (j : Job) (name : String) :
    afterRaise j name = .done ∨
      afterRaise j name = .storeResult j (rerunErrorEnvelope j name) := by
  unfold afterRaise
  split
  · exact .inr rfl
  · exact .inl rfl

theorem takeInputStep_move (j : Job) (target : Option CallTarget) :
    Move s (.takeInput j target) (takeInputStep D s j target).1 (takeInputStep D s j target).2
      [] := by
  have hstop : ∀ s', (∀ id, QueueStep id (s.file id) (s'.file id)) → s'.requests = s.requests →
      Move s (.takeInput j target) s' .done [] := by
    intro s' hf hrows
    exact .quiet hf hrows (fun _ h => by cases h) (fun _ _ _ h => by cases h) (fun _ => rfl)
  have hgo : ∀ s' params parent, (∀ id, QueueStep id (s.file id) (s'.file id)) →
      s'.requests = s.requests →
      Move s (.takeInput j target) s' (.checkPreview j target params parent) [] := by
    intro s' params parent hf hrows
    exact Move.holder rfl rfl (Hold.Onward.refl _) hf hrows
  have hrefl : ∀ id, QueueStep id (s.file id) (s.file id) := fun _ => .refl _ _
  have hdiscard : (s.discardHandoff j.requestId j.operator.tenantId).requests = s.requests := rfl
  unfold takeInputStep
  split
  · split
    · split
      · exact hstop s hrefl rfl
      · rename_i hc
        exact hgo _ _ _ (consumeHandoff_file hc) (consumeHandoff_some hc).2.1
    · exact hgo _ _ _ (discardHandoff_file s _ _) hdiscard
  · split
    · split
      · exact hstop s hrefl rfl
      · rename_i hc
        split
        · exact hgo _ _ _ (consumeHandoff_file hc) (consumeHandoff_some hc).2.1
        · exact hstop _ (consumeHandoff_file hc) (consumeHandoff_some hc).2.1
    · split
      · exact hgo s _ _ hrefl rfl
      · exact hstop s hrefl rfl

/-- A fold that keeps its best so far or takes the next answers an element of the list. -/
theorem foldl_choice_mem {β : Type} {f : Option β → β → Option β}
    (hf : ∀ best v, f best v = some v ∨ f best v = best) {xs : List β} {best : Option β} {v : β}
    (h : xs.foldl f best = some v) : v ∈ xs ∨ best = some v := by
  induction xs generalizing best with
  | nil => exact .inr h
  | cons x xs ih =>
    rw [List.foldl_cons] at h
    rcases ih h with hmem | hbest
    · exact .inl (List.mem_cons_of_mem _ hmem)
    · rcases hf best x with htake | hkeep
      · rw [htake, Option.some.injEq] at hbest
        exact .inl (hbest ▸ List.mem_cons_self)
      · exact .inr (hkeep ▸ hbest)

/-- The approval a mint finds is approved and is the row. -/
theorem findRemoteWriteApproval_some {call : MintCall} {id : Nat} {approval : ApprovalRequest}
    (h : findRemoteWriteApproval D s call = some (id, approval)) :
    s.requests[id]? = some approval ∧
      approval.tenantId = call.operator.tenantId ∧ approval.opId = call.opId ∧
      paramsHashMatches D.hashing call.params approval.paramsHash = true ∧
      approval.status = .approved ∧ approval.resumedAt = none ∧
      approval.targetId = call.target.map (·.1) := by
  unfold findRemoteWriteApproval at h
  have hmem := (foldl_choice_mem (by
    intro best v
    cases best with
    | none => exact .inl rfl
    | some b =>
      by_cases hlt : (b.2.decidedAt.getD 0) < (v.2.decidedAt.getD 0)
      · exact .inl (if_pos hlt)
      · exact .inr (if_neg hlt)) h).resolve_right (by simp)
  obtain ⟨hin, hsel⟩ := List.mem_filter.mp hmem
  obtain ⟨e, he, heq⟩ := List.mem_map.mp hin
  cases heq
  have hrow := List.mem_zipIdx_iff_getElem?.mp he
  simp only [Bool.and_eq_true, decide_eq_true_eq, Option.isNone_iff_eq_none] at hsel
  obtain ⟨⟨⟨⟨⟨ht, ho⟩, hp⟩, hst⟩, hr⟩, htg⟩ := hsel
  exact ⟨hrow, ht, ho, hp, hst, hr, htg⟩

/-- A job on its way through the first claim, or to a refusal, is not a re-run. -/
def Proc.First : Proc → Prop
  | .checkTarget j => j.path ≠ .rerun
  | .takeClaim j _ => j.path ≠ .rerun
  | .takeInput j _ => j.path ≠ .rerun
  | .checkPreview j _ _ _ => j.path ≠ .rerun
  | .refuseClaim j _ => j.path ≠ .rerun
  | .refuseDiscard j _ => j.path ≠ .rerun
  | .refuseAudit j _ => j.path ≠ .rerun
  | .refuseStore j _ => j.path ≠ .rerun
  | _ => True

variable {p : Proc}

theorem claimResume_move {now : Time} {j : Job} {s' : Store} {p' : Proc}
    (hc : claimResume now j.requestId s = (true, s')) (hfirst : j.path ≠ .rerun) {phase : Phase}
    (hp : p'.hold = some ⟨j.requestId, j.attempt, phase⟩) (hph : phase ≠ .running) :
    Move s p s' p' [] := by
  obtain ⟨r, hr, hs, hn, rfl⟩ := claimResume_true hc
  exact Move.claim (h := ⟨j.requestId, j.attempt, phase⟩) hr hs hn hp (j.firstRun hfirst) hph

theorem marks_recorded (j : Job) (result : Dict) (id : Nat) :
    marks id [.recorded j.requestId result] =
      if j.requestId = id then [.result (resultOk result)] else [] := by
  by_cases hid : j.requestId = id <;> simp [marks, Event.mark, hid]

theorem marks_refused (j : Job) (result : Dict) (cause : RefusalCause) (id : Nat) :
    marks id [.recorded j.requestId result, .refused j.requestId cause] =
      if j.requestId = id then [.result (resultOk result)] else [] := by
  by_cases hid : j.requestId = id <;> simp [marks, Event.mark, hid]

/-- The step of the process is a move. -/
def StepMoves (p : Proc) : Prop :=
  Move s p (procStep D inp s p).1 (procStep D inp s p).2.1 (procStep D inp s p).2.2

section Steps
variable {j : Job} {cause : RefusalCause}

theorem checkTarget_move : StepMoves D inp s (.checkTarget j) := by
  simp only [StepMoves, procStep]
  split
  · exact Move.idle rfl (by simp)
  · exact Move.idle rfl (by simp)

theorem takeClaim_move {target} (hfirst : j.path ≠ .rerun) :
    StepMoves D inp s (.takeClaim j target) := by
  simp only [StepMoves, procStep]
  split
  · exact Move.idle rfl (by simp)
  · split
    · rename_i hc
      rw [claimResume_false hc]
      exact Move.idle rfl (by simp)
    · -- the claim is won before any run input is read
      rename_i hc
      exact claimResume_move s hc hfirst rfl (by simp)

theorem checkPreview_move {target params parent} :
    StepMoves D inp s (.checkPreview j target params parent) := by
  simp only [StepMoves, procStep]
  split
  · exact Move.holder rfl rfl ⟨rfl, rfl, .inr ⟨rfl, rfl⟩⟩ (fun _ => .refl _ _) rfl
  · exact Move.holder rfl rfl (Hold.Onward.refl _) (fun _ => .refl _ _) rfl

theorem startRun_move {target params parent} :
    StepMoves D inp s (.startRun j target params parent) := by
  simp only [StepMoves, procStep]
  split
  · -- the parent call was not kept: nothing starts, and only a re-run stores that
    rcases afterRaise_cases j "KeyError" with heq | heq
    · rw [heq]
      exact Move.idle rfl (by simp)
    · rw [heq]
      exact Move.holder rfl rfl ⟨rfl, rfl, .inr ⟨rfl, rfl⟩⟩ (fun _ => .refl _ _) rfl
  · exact Move.start (h := ⟨j.requestId, j.attempt, .waiting⟩) rfl rfl rfl

theorem running_move : StepMoves D inp s (.running j) := by
  have hstop : ∀ p', p' = .done ∨ (∃ result, p' = .storeResult j result) →
      Move s (.running j) s p' [.ended j.requestId j.attempt] := by
    intro p' hp'
    refine Move.stop (h := ⟨j.requestId, j.attempt, .running⟩) rfl rfl ?_ ?_
    · rcases hp' with rfl | ⟨result, rfl⟩
      · exact .inl rfl
      · exact .inr rfl
    · rcases hp' with rfl | ⟨result, rfl⟩ <;> simp
  simp only [StepMoves, procStep]
  split
  · exact hstop _ (.inr ⟨_, rfl⟩)
  · rename_i name _
    rcases afterRaise_cases j name with heq | heq
    · exact hstop _ (.inl heq)
    · exact hstop _ (.inr ⟨_, heq⟩)

theorem storeResult_move {result} : StepMoves D inp s (.storeResult j result) := by
  simp only [StepMoves, procStep]
  split
  · exact Move.idle rfl (by simp)
  · exact Move.record (h := ⟨j.requestId, j.attempt, .ended⟩) rfl rfl (marks_recorded j result)

theorem refuseClaim_move (hfirst : j.path ≠ .rerun) :
    StepMoves D inp s (.refuseClaim j cause) := by
  simp only [StepMoves, procStep]
  split
  · rename_i hc
    rw [claimResume_false hc]
    exact Move.idle rfl (by simp)
  · rename_i hc
    exact claimResume_move s hc hfirst rfl (by simp)

theorem refuseAudit_move : StepMoves D inp s (.refuseAudit j cause) := by
  simp only [StepMoves, procStep]
  split
  · exact Move.holder rfl rfl (Hold.Onward.refl _) (fun _ => .refl _ _) rfl
  · exact Move.holder rfl rfl (Hold.Onward.refl _) (addAudit_policy_file s rfl) rfl

theorem refuseStore_move : StepMoves D inp s (.refuseStore j cause) := by
  simp only [StepMoves, procStep]
  split
  · exact Move.idle rfl (by simp)
  · exact Move.record (h := ⟨j.requestId, j.attempt, .ended⟩) rfl rfl
      (marks_refused j (cause.envelope j.requestId j.request) cause)

theorem rerunClaim_move {target params} : StepMoves D inp s (.rerunClaim j target params) := by
  simp only [StepMoves, procStep]
  split
  · rename_i hc
    rw [claimRerun_none hc]
    exact Move.idle rfl (by simp)
  · rename_i count s₁ hc
    obtain ⟨r, hr, hs, -, hfail, hcount, rfl⟩ := claimRerun_some hc
    exact Move.reclaim (h := ⟨j.requestId, count, .waiting⟩) hr hs hfail
      (fun id => file_addAudit_policy _ rfl id) rfl hcount (by simp) ⟨j, target, params, rfl, rfl⟩

theorem mintStart_move {call} : StepMoves D inp s (.mintStart call) := by
  simp only [StepMoves, procStep]
  split
  · exact Move.idle rfl (by simp)
  · rename_i id approval hfind
    split
    · exact Move.idle rfl (by simp)
    · refine .quiet (fun _ => .refl _ _) rfl (fun _ hh' => by cases hh') ?_ (fun _ => rfl)
      intro call' id' approval' heq
      cases heq
      obtain ⟨hrow, -, -, -, hs, -, -⟩ := findRemoteWriteApproval_some D s hfind
      exact ⟨hrow, hs⟩

theorem mintClaim_move {call id approval} : StepMoves D inp s (.mintClaim call id approval) := by
  simp only [StepMoves, procStep]
  split
  · exact Move.idle rfl (by simp)
  · rename_i hc
    exact Move.mint rfl hc

end Steps

theorem procStep_move (hfirst : p.First) :
    Move s p (procStep D inp s p).1 (procStep D inp s p).2.1 (procStep D inp s p).2.2 := by
  cases p with
  | done => exact Move.idle rfl (by simp [procStep])
  | resumeStart operator id request params =>
    obtain ⟨hh, hm⟩ := resumeStartStep_idle inp operator id request params
    exact Move.idle hh hm
  | waiterStart operator id call =>
    obtain ⟨hh, hm⟩ := waiterStartStep_idle inp s operator id call
    exact Move.idle hh hm
  | checkTarget j => exact checkTarget_move D inp s
  | takeClaim j target => exact takeClaim_move D inp s hfirst
  | takeInput j target => exact takeInputStep_move D s j target
  | checkPreview j target params parent => exact checkPreview_move D inp s
  | startRun j target params parent => exact startRun_move D inp s
  | running j => exact running_move D inp s
  | storeResult j result => exact storeResult_move D inp s
  | refuseClaim j cause => exact refuseClaim_move D inp s hfirst
  | refuseDiscard j cause =>
    exact Move.holder rfl rfl (Hold.Onward.refl _) (discardHandoff_file s _ _) rfl
  | refuseAudit j cause => exact refuseAudit_move D inp s
  | refuseStore j cause => exact refuseStore_move D inp s
  | rerunStart operator id params =>
    obtain ⟨hh, hm⟩ := rerunStartStep_idle D inp s operator id params
    exact Move.idle hh hm
  | rerunRefuse j code statusCode =>
    exact .quiet (addAudit_policy_file s rfl) rfl (fun _ hh' => by cases hh')
      (fun _ _ _ heq => by cases heq) (fun _ => rfl)
  | rerunTarget j params =>
    obtain ⟨hh, hm⟩ := rerunTargetStep_idle D inp s j params
    exact Move.idle hh hm
  | rerunClaim j target params => exact rerunClaim_move D inp s
  | mintStart call => exact mintStart_move D inp s
  | mintClaim call id approval => exact mintClaim_move D inp s

theorem resumeStartStep_first (operator : Operator) (id : Nat) (request : ApprovalRequest)
    (params : Option Params) : (resumeStartStep inp operator id request params).First := by
  unfold resumeStartStep
  simp only
  repeat' split
  all_goals simp [Proc.First]

theorem waiterStartStep_first (operator : Operator) (id : Nat) (call : CallArguments) :
    (waiterStartStep inp s operator id call).First := by
  unfold waiterStartStep
  simp only
  repeat' split
  all_goals simp [Proc.First]

theorem rerunStartStep_first (operator : Operator) (id : Nat) (params : Option Params) :
    (rerunStartStep D inp s operator id params).First := by
  unfold rerunStartStep
  simp only
  repeat' split
  all_goals simp [Proc.First]

/-- Only a start that is not a re-run leads to the first claim. -/
theorem procStep_first (hfirst : p.First) : (procStep D inp s p).2.1.First := by
  cases p with
  | resumeStart operator id request params => exact resumeStartStep_first inp operator id request params
  | waiterStart operator id call => exact waiterStartStep_first inp s operator id call
  | rerunStart operator id params => exact rerunStartStep_first D inp s operator id params
  | checkTarget j =>
    simp only [procStep]
    split
    · exact hfirst
    · exact hfirst
  | takeInput j target =>
    simp only [procStep, takeInputStep]
    repeat' split
    all_goals trivial
  | rerunTarget j params =>
    simp only [procStep, rerunTargetStep]
    repeat' split
    all_goals trivial
  | startRun j target params parent =>
    simp only [procStep]
    split
    · rcases afterRaise_cases j "KeyError" with heq | heq <;> (rw [heq]; trivial)
    · trivial
  | running j =>
    simp only [procStep]
    split
    · trivial
    · rename_i name _
      rcases afterRaise_cases j name with heq | heq <;> (rw [heq]; trivial)
  | _ =>
    simp only [procStep]
    repeat' split
    all_goals trivial

end Steps

variable (D : Deployment)

/-! ## Where the processes come from -/

/-- The process an action starts. -/
inductive Spawned (w : World) : Act → Proc → Prop where
  | waiter {args : CreateArgs} {fqdn : Option String} {id : Nat} {s' : Store}
    (h : createPendingRequest D args w.store = .ok (id, s')) :
    Spawned w (.create args true fqdn) (.waiterStart args.operator id (waiterCall args fqdn))
  | approved {settings : Settings} {clock : ApproveClock} {id : Nat} {operator : Operator}
    {params : Option Params} {reason : String} {auth : Option ApprovalAuth}
    {request : ApprovalRequest} {rule : ApprovalRule} {s' : Store}
    (h : approveRequest D settings clock id operator params reason auth w.store =
      (.ok (request, rule), s')) :
    Spawned w (.approve settings clock id operator params reason auth)
      (.resumeStart operator id request params)
  | resume {operator : Operator} {id : Nat} {request : ApprovalRequest}
    (h : w.store.loadForTenant id operator.tenantId = some request) :
    Spawned w (.resume operator id) (.resumeStart operator id request none)
  | rerun (operator : Operator) (id : Nat) (params : Option Params) :
    Spawned w (.rerun operator id params) (.rerunStart operator id params)
  | mint (call : MintCall) : Spawned w (.mint call) (.mintStart call)

variable {w : World} {a : Act}

/-- Every process after an action was there before, is done, was started by the action, or is
the one process that took a step. -/
theorem worldStep_procs {q : Proc} (h : q ∈ (worldStep D w a).1.procs) :
    q ∈ w.procs ∨ q = .done ∨ Spawned D w a q ∨
      ∃ pid inp p, a = .advance pid inp ∧ w.procs[pid]? = some p ∧
        q = (procStep D inp w.store p).2.1 ∧
        (worldStep D w a).1.store = (procStep D inp w.store p).1 := by
  cases a with
  | create args waits fqdn =>
    simp only [worldStep] at h
    split at h
    · exact .inl h
    · rename_i id s' hc
      split at h
      · rename_i hwaits
        rcases List.mem_append.mp h with hold | hnew
        · exact .inl hold
        · rw [List.mem_singleton.mp hnew]
          subst hwaits
          exact .inr (.inr (.inl (.waiter hc)))
      · exact .inl h
  | approve settings clock id operator params reason auth =>
    simp only [worldStep] at h
    split at h
    · exact .inl h
    · rename_i request rule s' hc
      rcases List.mem_append.mp h with hold | hnew
      · exact .inl hold
      · rw [List.mem_singleton.mp hnew]
        exact .inr (.inr (.inl (.approved hc)))
  | resume operator id =>
    simp only [worldStep] at h
    split at h
    · exact .inl h
    · rename_i request hload
      rcases List.mem_append.mp h with hold | hnew
      · exact .inl hold
      · rw [List.mem_singleton.mp hnew]
        exact .inr (.inr (.inl (.resume hload)))
  | rerun operator id params =>
    rcases List.mem_append.mp h with hold | hnew
    · exact .inl hold
    · rw [List.mem_singleton.mp hnew]
      exact .inr (.inr (.inl (.rerun operator id params)))
  | mint call =>
    rcases List.mem_append.mp h with hold | hnew
    · exact .inl hold
    · rw [List.mem_singleton.mp hnew]
      exact .inr (.inr (.inl (.mint call)))
  | advance pid inp =>
    simp only [worldStep] at h ⊢
    split at h
    · exact .inl h
    · rename_i p hp
      rcases List.mem_or_eq_of_mem_set h with hold | rfl
      · exact .inl hold
      -- the one process that took the step; every other stands where it stood
      · exact .inr (.inr (.inr ⟨pid, inp, p, rfl, hp, rfl, rfl⟩))
  | crash pid =>
    rcases List.mem_or_eq_of_mem_set h with hold | rfl
    · exact .inl hold
    · exact .inr (.inl rfl)
  | addTarget target | editTarget targetId settings | deleteTarget targetId => exact .inl h
  | _ =>
    simp only [worldStep] at h
    split at h
    · exact .inl h
    · exact .inl h

/-- The rule for what every process knows of the tables: the tables keep it, the process that
took the step keeps it, and a process starts with it. -/
theorem knowledge_step {K : Store → Proc → Prop} (hdone : ∀ s, K s .done)
    (hkeep : ∀ p, K w.store p → K (worldStep D w a).1.store p)
    (hspawn : ∀ p, Spawned D w a p → K (worldStep D w a).1.store p)
    (hstep : ∀ (pid : Nat) (inp : Inp) (p : Proc), a = .advance pid inp → w.procs[pid]? = some p →
      K w.store p → K (worldStep D w a).1.store (procStep D inp w.store p).2.1)
    (h : ∀ p ∈ w.procs, K w.store p) :
    ∀ p ∈ (worldStep D w a).1.procs, K (worldStep D w a).1.store p := by
  intro q hq
  rcases worldStep_procs D hq with hold | rfl | hnew | ⟨pid, inp, p, ha, hp, rfl, -⟩
  · exact hkeep q (h q hold)
  · exact hdone _
  · exact hspawn q hnew
  · exact hstep pid inp p ha hp (h p (List.mem_of_getElem? hp))

/-! ## Where the rows come from -/

variable {id : Nat} {r : ApprovalRequest}

/-- An action that adds a row is a park, and the file is the one the park opens. -/
theorem worldStep_opened (hw : ∀ id, FileOk id (w.store.file id))
    (hnone : w.store.requests[id]? = none) (hr : (worldStep D w a).1.store.requests[id]? = some r) :
    ∃ args waits fqdn s₁, a = .create args waits fqdn ∧ KeyFreed w.store s₁ ∧
      (worldStep D w a).1.store.file id =
        ⟨some (insertedRow D s₁ args), [], insertedCustody D s₁ args⟩ ∧
      (worldStep D w a).2 = [.parked id args (callSettings w.store args)] := by
  have hge : w.store.requests.length ≤ id := List.getElem?_eq_none_iff.mp hnone
  have hlt : id < (worldStep D w a).1.store.requests.length :=
    (List.getElem?_eq_some_iff.mp hr).1
  by_cases hcreate : ∃ args waits fqdn, a = .create args waits fqdn
  · obtain ⟨args, waits, fqdn, rfl⟩ := hcreate
    cases hc : createPendingRequest D args w.store with
    | error e =>
      rw [worldStep_create_error D hc] at hlt
      exact absurd hlt (Nat.not_lt.mpr hge)
    | ok res =>
      obtain ⟨id₁, s'⟩ := res
      obtain ⟨hstore, hes⟩ := worldStep_create D waits fqdn hc
      rw [hstore] at hr hlt
      obtain ⟨s₁, hfree, ⟨r₁, -, -, -, rfl⟩ | ⟨hid, rfl⟩⟩ := createPendingRequest_cases hc
      · have hlen := hfree.keeps.length
        omega
      · -- the new row is the last one
        have hlen := hfree.keeps.length
        have hid' : id = s₁.requests.length := by
          by_contra hne
          have hsame := congrArg File.row (insertRequest_file_ne D args hne)
          rw [file_row, file_row, hr] at hsame
          have := (List.getElem?_eq_some_iff.mp hsame.symm).1
          omega
        subst hid'
        have hok₁ : FileOk s₁.requests.length (s₁.file s₁.requests.length) :=
          (hfree.file _).ok (hw _)
        have hrow : s₁.requests[s₁.requests.length]? = none :=
          List.getElem?_eq_none (Nat.le_refl _)
        obtain ⟨hcl, hcu⟩ := hok₁.empty hrow
        have hempty : s₁.file s₁.requests.length = ⟨none, [], []⟩ := by
          rw [← hrow, ← hcl, ← hcu]; rfl
        refine ⟨args, waits, fqdn, s₁, rfl, hfree, ?_, ?_⟩
        · rw [hstore]
          exact insertRequest_file_new D args hempty
        · rw [hes, hid, if_pos (by omega)]
  · have hkeeps := worldStep_keeps D w fun args waits fqdn heq =>
      hcreate ⟨args, waits, fqdn, heq⟩
    rw [hkeeps.length] at hlt
    omega

section
variable {operator : Operator} {rule : ApprovalRule} {auth : Option ApprovalAuth}

theorem procStep_not_approved {inp : Inp} {s : Store} :
    Event.approved id operator rule auth r ∉ (procStep D inp s p).2.2 := by
  intro h
  cases p with
  | _ =>
    simp only [procStep] at h
    repeat' split at h
    all_goals simp at h

theorem worldStep_approved (h : .approved id operator rule auth r ∈ (worldStep D w a).2) :
    ∃ settings clock params reason, a = .approve settings clock id operator params reason auth ∧
      approveRequest D settings clock id operator params reason auth w.store =
        (.ok (r, rule), (worldStep D w a).1.store) ∧
      (worldStep D w a).2 = [.approved id operator rule auth r] := by
  cases a with
  | approve settings clock id' operator' params reason auth' =>
    simp only [worldStep] at h ⊢
    split at h
    · cases h
    · rename_i request rule' s' hc
      cases List.mem_singleton.mp h
      exact ⟨settings, clock, params, reason, rfl, hc, rfl⟩
  | advance pid inp =>
    simp only [worldStep] at h
    split at h
    · cases h
    · exact absurd h (procStep_not_approved D)
  | _ =>
    simp only [worldStep] at h
    repeat' split at h
    all_goals simp at h

end

theorem procStep_started {inp : Inp} {s : Store} {attempt : Nat} {path : RunPath} {call : Call}
    (h : .started id path attempt call ∈ (procStep D inp s p).2.2) :
    ∃ j target params parent, p = .startRun j target params parent ∧ id = j.requestId ∧
      path = j.path ∧ attempt = j.attempt ∧ runCall j target params parent = some call := by
  cases p with
  | startRun j target params parent =>
    simp only [procStep] at h
    split at h
    · cases h
    · rename_i call' hcall
      cases List.mem_singleton.mp h
      exact ⟨j, target, params, parent, rfl, rfl, rfl, rfl, hcall⟩
  | _ =>
    simp only [procStep] at h
    repeat' split at h
    all_goals simp at h

theorem worldStep_started {attempt : Nat} {path : RunPath} {call : Call}
    (h : .started id path attempt call ∈ (worldStep D w a).2) :
    ∃ pid inp j target params parent, a = .advance pid inp ∧
      w.procs[pid]? = some (.startRun j target params parent) ∧ id = j.requestId ∧
      path = j.path ∧ attempt = j.attempt ∧ runCall j target params parent = some call := by
  cases a with
  | advance pid inp =>
    simp only [worldStep] at h
    split at h
    · cases h
    · rename_i p hp
      obtain ⟨j, target, params, parent, rfl, hrest⟩ := procStep_started D h
      exact ⟨pid, inp, j, target, params, parent, rfl, hp, hrest⟩
  | _ =>
    simp only [worldStep] at h
    repeat' split at h
    all_goals simp at h

end Meho.Approval
