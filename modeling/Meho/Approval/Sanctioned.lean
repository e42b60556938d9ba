import Meho.Approval.ExpiryReason
import Meho.Approval.Faithful

/- Nothing runs that nobody entitled to it approved (operations/approval_queue.py).

However parks, decisions, sweeps, resumes, waiters, re-runs and mints are interleaved: when a
run of a request starts, one of the decisions before it approved the request, and the person
who took it was entitled to it by every rule of `approve_request` (`runs_only_sanctioned`). A
row becomes approved in one way only, by `Act.approve` (`worldStep_closes`). -/
namespace Meho.Approval
open Meho.Lib

/-- The sender does not decide alone unless a rule says so, and a high risk takes somebody with
the self-approval right, or a second person who is an administrator. -/
structure GroupRules (settings : Settings) (operator : Operator) (r : ApprovalRequest) : Prop where
  sender : operator.sub = r.principalSub → operator.maySelfApprove = true ∨
    requestWaitsOnlyForTokenCall r = true ∧ operator.webSession = true ∨
    settings.approvalAllowSelfApproval = true
  highRisk : isHighRisk (requestSafetyLevel r) = true → operator.maySelfApprove = true ∨
    operator.sub ≠ r.principalSub ∧ operator.tenantRole = .tenantAdmin

/-- The operator may approve the request: a person of its tenant with a role for it. -/
structure Sanctions (D : Deployment) (settings : Settings) (operator : Operator)
    (r : ApprovalRequest) : Prop where
  tenant : r.tenantId = operator.tenantId
  human : isHumanPrincipal operator = true
  role : operator.tenantRole = .readOnly → operator.approver = true
  floor : roleFloorDenial D.floors r.opId operator.tenantRole = none
  group : GroupRules settings operator r
  binding : isDestructive r = true → r.previewHash.getD "" ≠ ""

section Checks
variable {D : Deployment} {settings : Settings} {operator : Operator} {requestId : Nat}
  {r : ApprovalRequest} {rule : ApprovalRule}

theorem not_highRisk_of_tokenCall (h : requestWaitsOnlyForTokenCall r = true) :
    isHighRisk (requestSafetyLevel r) = false := by
  unfold requestWaitsOnlyForTokenCall at h
  rw [of_decide_eq_true (Bool.and_eq_true_iff.mp h).2]
  decide

theorem checkApproverGroup_ok (h : checkApproverGroup settings operator requestId r = .ok rule) :
    GroupRules settings operator r := by
  by_cases hself : operator.maySelfApprove = true
  · exact ⟨fun _ => .inl hself, fun _ => .inl hself⟩
  unfold checkApproverGroup checkSelfApproval at h
  by_cases hsender : operator.sub = r.principalSub
  · simp only [hsender, hself] at h
    cases htoken : requestWaitsOnlyForTokenCall r && operator.webSession with
    | true =>
      obtain ⟨hwaits, hweb⟩ := Bool.and_eq_true_iff.mp htoken
      refine ⟨fun _ => .inr (.inl ⟨hwaits, hweb⟩), fun hrisk => ?_⟩
      rw [not_highRisk_of_tokenCall hwaits] at hrisk
      cases hrisk
    | false =>
      simp only [htoken] at h
      have hglass : isHighRisk (requestSafetyLevel r) = false ∧
          settings.approvalAllowSelfApproval = true := by
        cases hrisk : isHighRisk (requestSafetyLevel r) <;>
          cases hallow : settings.approvalAllowSelfApproval <;> simp_all
      exact ⟨fun _ => .inr (.inr hglass.2), fun hrisk => by simp [hglass.1] at hrisk⟩
  · refine ⟨fun h => absurd h hsender, fun hrisk => .inr ⟨hsender, ?_⟩⟩
    by_contra hadmin
    simp [hsender, hself, hrisk, hadmin] at h

theorem checkReviewerRole_ok (h : checkReviewerRole operator = .ok ()) :
    isHumanPrincipal operator = true ∧
      (operator.tenantRole = .readOnly → operator.approver = true) := by
  unfold checkReviewerRole at h
  split at h
  · cases h
  · rename_i hhuman
    split at h
    · cases h
    · rename_i hrole
      exact ⟨by simpa using hhuman, fun hread => by simpa [hread] using hrole⟩

theorem ApproveChecks.sanctions {clock : ApproveClock} {params : Option Params}
    {auth : Option ApprovalAuth} {s : Store} {singleUse : Bool}
    (h : ApproveChecks D settings clock requestId operator params auth s r rule singleUse) :
    Sanctions D settings operator r := by
  obtain ⟨hhuman, hrole⟩ := checkReviewerRole_ok h.reviewer
  have hfloor := h.floor
  have hbinding := h.binding
  unfold checkApproverRoleFloor at hfloor
  unfold checkDestructivePreviewBinding at hbinding
  refine ⟨h.tenant, hhuman, hrole, ?_, checkApproverGroup_ok h.group, fun hdestructive hempty => ?_⟩
  · cases hdenial : roleFloorDenial D.floors r.opId operator.tenantRole with
    | none => rfl
    | some denial => simp [hdenial] at hfloor
  · simp [hdestructive, hempty] at hbinding

theorem Sanctions.of_parked {r' : ApprovalRequest} (h : Sanctions D settings operator r)
    (hparked : r'.parked = r.parked) : Sanctions D settings operator r' := by
  have htenant : r'.tenantId = r.tenantId := congrArg ParkedCall.tenantId hparked
  have hsub : r'.principalSub = r.principalSub := congrArg ParkedCall.principalSub hparked
  have hop : r'.opId = r.opId := congrArg ParkedCall.opId hparked
  have hpreview : r'.previewHash = r.previewHash := congrArg ParkedCall.previewHash hparked
  have heffect : r'.proposedEffect = r.proposedEffect := congrArg ParkedCall.proposedEffect hparked
  have hlevel : requestSafetyLevel r' = requestSafetyLevel r := by
    rw [requestSafetyLevel, requestSafetyLevel, heffect]
  refine ⟨htenant ▸ h.tenant, h.human, h.role, hop ▸ h.floor, ⟨?_, ?_⟩, ?_⟩
  · rw [hsub, requestWaitsOnlyForTokenCall, heffect, hlevel]
    exact h.group.sender
  · rw [hsub, hlevel]
    exact h.group.highRisk
  · rw [hpreview, isDestructive, hlevel]
    exact h.binding

end Checks

/-! ## A row becomes approved -/

theorem FileStep.before_approved {id : Nat} {f g : File} {r' : ApprovalRequest}
    (h : FileStep id f g) (hg : g.row = some r') (happroved : r'.status = .approved) :
    ∃ r, f.row = some r ∧ (r.status = .approved ∨ r.status = .pending) := by
  cases h with
  | queue hq =>
    cases hq with
    | keep => exact ⟨r', hg, .inl happroved⟩
    | create hfresh =>
      cases hg
      rw [hfresh.status] at happroved
      cases happroved
    | close c hp => exact ⟨_, rfl, .inr hp⟩
  | claim now hs | record result hs | reclaim hs => exact ⟨_, rfl, .inl hs⟩

section Histories
variable (D : Deployment)

def Approves (id : Nat) (r : ApprovalRequest) (a : Act) (es : List Event) : Prop :=
  ∃ settings clock operator params reason auth rule approved,
    a = .approve settings clock id operator params reason auth ∧
    .approved id operator rule auth approved ∈ es ∧ Sanctions D settings operator r

theorem Closes.approved {s : Store} {a : Act} {es : List Event} {id : Nat} {r r' : ApprovalRequest}
    (h : Closes D s id r a es r') (happroved : r'.status = .approved) :
    Approves D id r' a es ∧ ∀ e ∈ es, e.isRun id = false := by
  cases h with
  | expires => cases happroved
  | @approves settings clock operator params auth rule singleUse reason hchecks =>
    refine ⟨⟨settings, clock, operator, params, reason, auth, rule, _, rfl,
      List.mem_singleton_self _, hchecks.sanctions.of_parked rfl⟩, ?_⟩
    intro e he
    rw [List.mem_singleton.mp he]
    rfl
  | ends hends => simp [happroved] at hends

theorem approved_history (acts : List Act) (id : Nat) {r : ApprovalRequest}
    (h : rowOf (history D acts) id = some r) (happroved : r.status = .approved) :
    ∃ a ∈ acts, Approves D id r a (history D acts).events := by
  have hinv : Exclusive (history D acts) ∧ ∀ r, rowOf (history D acts) id = some r →
      r.status = .approved → ∃ a ∈ acts, Approves D id r a (history D acts).events := by
    refine (queue D).run_induct_of_forall (P := (· ∈ acts))
      (I := fun c => Exclusive c ∧ ∀ r, rowOf c id = some r → r.status = .approved →
        ∃ a ∈ acts, Approves D id r a c.events) ?_
      ⟨exclusive_begin D, fun r hr => by cases hr⟩ fun _ ha => ha
    rintro c a ⟨hc, hrows⟩ ha
    refine ⟨exclusive_next D c a hc, fun r' hr' happroved' => ?_⟩
    rw [Machine.next_events]
    have hfile := next_file D hc a id
    obtain ⟨r, hr, hbefore | hbefore⟩ := hfile.before_approved hr' happroved'
    · obtain ⟨_, hlater', hlater⟩ := hfile.later hr
      obtain rfl := Option.some.inj (hr'.symm.trans hlater')
      obtain ⟨b, hb, settings, clock, operator, params, reason, auth, rule, row, hact, he, hrules⟩ :=
        hrows r hr hbefore
      exact ⟨b, hb, settings, clock, operator, params, reason, auth, rule, row, hact,
        List.mem_append_left _ he, hrules.of_parked hlater.parked⟩
    · obtain ⟨⟨settings, clock, operator, params, reason, auth, rule, row, hact, he, hrules⟩, -⟩ :=
        (worldStep_closes D hc.world hr hbefore hr' (by simp [happroved'])).approved D happroved'
      exact ⟨a, ha, settings, clock, operator, params, reason, auth, rule, row, hact,
        List.mem_append_right _ he, hrules⟩
  exact hinv.2 r h happroved

/-- **Nothing runs that nobody entitled to it approved.** In every history, when an action starts
a run of a request (an operator's resume, an agent's waiter, a re-run or a mint), one of the
actions before it approved the request, taken by a person whom every rule lets approve the row
that is stored. -/
theorem runs_only_sanctioned (acts : List Act) (a : Act) (id : Nat) (e : Event)
    (he : e ∈ (worldStep D (history D acts).state a).2) (hrun : e.isRun id = true) :
    ∃ r, rowOf (history D acts) id = some r ∧
      ∃ b ∈ acts, Approves D id r b (history D acts).events := by
  have hnext : history D (acts ++ [a]) = (queue D).next (history D acts) a :=
    (queue D).run_append _ _ _
  obtain ⟨r', hr', happroved, -⟩ := isRun_approved D (acts ++ [a])
    (by rw [hnext]; exact List.mem_append_right _ he) hrun
  rw [hnext] at hr'
  have hc := exclusive_history D acts
  obtain ⟨r, hr, hbefore | hbefore⟩ := (next_file D hc a id).before_approved hr' happroved
  · exact ⟨r, hr, approved_history D acts id hr hbefore⟩
  · -- the approve that would have been this action starts no run
    have hcloses := worldStep_closes D hc.world hr hbefore hr' (by simp [happroved])
    rw [(hcloses.approved D happroved).2 e he] at hrun
    cases hrun

theorem runs_only_sanctioned_resume :
    ∃ e ∈ (worldStep smallDeployment (history smallDeployment
        ((approvedRun smallCall).take 8)).state (.advance 0 smallInp)).2,
      e.isRun 0 = true ∧ ∃ r, rowOf (history smallDeployment ((approvedRun smallCall).take 8)) 0 =
        some r ∧ ∃ b ∈ (approvedRun smallCall).take 8, Approves smallDeployment 0 r b
          (history smallDeployment ((approvedRun smallCall).take 8)).events := by
  have hstarted := List.mem_of_getElem? (l := (worldStep smallDeployment (history smallDeployment
    ((approvedRun smallCall).take 8)).state (.advance 0 smallInp)).2) (i := 0) rfl
  exact ⟨_, hstarted, rfl, runs_only_sanctioned smallDeployment _ (.advance 0 smallInp) 0 _ hstarted rfl⟩

end Histories

end Meho.Approval
