import Mathlib.Data.List.Induction
import Meho.Approval.Origin
import Meho.Dispatch.Effect

/- Who approves dangerous and destructive calls.

The approve check reads the risk level back from the effect the park stored,
not from the operation. `high_risk_approvers`: every approve that commits on a
parked dangerous or destructive call is by a person the high-risk rule names,
exactly when nothing raised while the call's effect was built. A destructive
call whose effect is lost is not parked at all; a dangerous one is parked with
its identifiers only, and then its own sender may approve it under
break-glass (`lost_effect_self_approved`). -/
namespace Meho.Dispatch
open Meho.Approval Meho.Lib

variable (D : Deployment)

/-- The call is parked with these arguments, by the dispatcher or as a step of a composite. -/
def Parks (x : ParkContext) (c : EffectCall) (args : CreateArgs) : Prop :=
  (∃ previewHash idempotencyKey revealSecret,
    handleNeedsApproval D x c previewHash idempotencyKey revealSecret = .ok args) ∨
  (∃ resumeParent requester, enforceSubopPolicy D x c resumeParent requester = .ok args)

/-- A person of the groups that may approve dangerous and destructive changes: their own change
only a person who may self-approve, anyone else's such a person or a tenant admin. -/
structure HighRiskApproval (operator : Operator) (request : ApprovalRequest)
    (rule : ApprovalRule) : Prop where
  human : isHumanPrincipal operator = true
  own : operator.sub = request.principalSub → operator.maySelfApprove = true
  group : operator.maySelfApprove = true ∨ operator.tenantRole = .tenantAdmin
  notBreakGlass : rule ≠ .breakGlassSelfApproval

/-! ## The rule of an approve -/

/-- On a request whose stored level is high, only the high-risk rule lets an approve through. -/
theorem checkApproverGroup_highRisk {settings : Settings} {operator : Operator} {id : Nat}
    {request : ApprovalRequest} {rule : ApprovalRule}
    (hhuman : checkReviewerRole operator = .ok ())
    (hrisk : isHighRisk (requestSafetyLevel request) = true)
    (h : checkApproverGroup settings operator id request = .ok rule) :
    HighRiskApproval operator request rule := by
  have hperson : isHumanPrincipal operator = true := by
    unfold checkReviewerRole at hhuman
    by_contra hno
    rw [if_pos (by simpa using hno)] at hhuman
    cases hhuman
  -- a high level is not `caution`, so no token wait either
  have htoken : requestWaitsOnlyForTokenCall request = false := by
    unfold requestWaitsOnlyForTokenCall
    by_contra hwait
    simp only [Bool.not_eq_false, Bool.and_eq_true, decide_eq_true_eq] at hwait
    rw [hwait.2] at hrisk
    exact absurd hrisk (by decide)
  unfold checkApproverGroup checkSelfApproval at h
  by_cases hown : operator.sub = request.principalSub
  · by_cases hself : operator.maySelfApprove = true
    · simp only [hown, ne_eq, not_true_eq_false, if_false, hself, if_true,
        Except.ok.injEq] at h
      subst h
      exact ⟨hperson, fun _ => hself, .inl hself, by decide⟩
    · simp [hown, hself, htoken, hrisk] at h
  · simp only [ne_eq, hown, not_false_eq_true, if_true, hrisk, Bool.not_true, Bool.false_eq_true,
      if_false] at h
    split at h
    · rename_i hgroup
      cases h
      refine ⟨hperson, fun heq => absurd heq hown, ?_, by decide⟩
      simpa using hgroup
    · cases h

/-- What every approval in a history passed, on the row of the call it is for. -/
def ApprovalsChecked (c : Config World Event) : Prop :=
  ∀ id operator rule auth r, .approved id operator rule auth r ∈ c.events →
    ∃ args st, parkedCall id c.events = some (args, st) ∧ r.parked.Of D args st ∧
      checkReviewerRole operator = .ok () ∧
      ∃ settings, checkApproverGroup settings operator id r = .ok rule

theorem approvalsChecked_next (c : Config World Event) (a : Act) (hrecord : OnRecord D c)
    (h : ApprovalsChecked D c) : ApprovalsChecked D ((queue D).next c a) := by
  intro id operator rule auth r he
  rcases List.mem_append.mp he with hold | hnew
  · obtain ⟨args, st, hparked, hrest⟩ := h id operator rule auth r hold
    exact ⟨args, st, parkedCall_append hparked _, hrest⟩
  · obtain ⟨settings, clock, params, reason, -, hc, -⟩ := worldStep_approved D hnew
    obtain ⟨request, singleUse, delegation, hchecks, rfl, -⟩ := approveRequest_ok hc
    obtain ⟨args, st, ho⟩ := hrecord.recorded.rows id request hchecks.loaded
    exact ⟨args, st, parkedCall_append ho.parked _, ho.call, hchecks.reviewer, settings,
      hchecks.group⟩

theorem approvalsChecked_history (acts : List Act) : ApprovalsChecked D (history D acts) := by
  induction acts using List.reverseRecOn with
  | nil => exact fun _ _ _ _ _ he => by cases he
  | append_singleton acts a ih =>
    have hnext : history D (acts ++ [a]) = (queue D).next (history D acts) a :=
      (queue D).after_snoc acts a
    rw [hnext]
    exact approvalsChecked_next D _ a (onRecord_history D acts) ih

/-- The effect of a parked call is the one that was built for it. -/
theorem Parks.effect {D : Deployment} {x : ParkContext} {c : EffectCall} {args : CreateArgs}
    (h : Parks D x c args) :
    args.proposedEffect = buildProposedEffect D.classifyOp x.hooks c ∧ args.expiresAt = none ∧
      (c.descriptor.safetyLevel = .destructive →
        effectRaises D.classifyOp x.hooks c = false) := by
  rcases h with ⟨previewHash, key, reveal, h⟩ | ⟨parent, requester, h⟩
  · unfold handleNeedsApproval at h
    split at h
    · cases h
    · cases h
    · cases h
    · obtain ⟨effect, hpark, rfl⟩ := except_map_eq_ok h
      exact ⟨(parkEffect_ok hpark).1, rfl, parkEffect_destructive hpark⟩
  · unfold enforceSubopPolicy at h
    split at h
    · cases h
    · obtain ⟨effect, hpark, rfl⟩ := except_map_eq_ok h
      exact ⟨(parkEffect_ok hpark).1, rfl, parkEffect_destructive hpark⟩

theorem isHighRisk_value {level : SafetyLevel} (h : level = .dangerous ∨ level = .destructive) :
    isHighRisk (some level.value) = true := by
  rcases h with rfl | rfl <;> decide

/-! ## The run a lost effect allows -/

/-- The sender of a call, as a tenant admin who may not approve their own changes. -/
def sender (args : CreateArgs) : Operator :=
  { expiryOperator args.operator.tenantId with
    sub := (args.requester.map (·.sub)).getD args.operator.sub
    tenantRole := .tenantAdmin }

/-- Break-glass is on. -/
def breakGlassSettings : Settings := { Settings.default with approvalAllowSelfApproval := true }

/-- The call is parked and its sender approves it, signed in just now, before the deadline. -/
def selfApprovedRun (args : CreateArgs) : List Act :=
  [.create args false none,
    .approve breakGlassSettings
      ⟨boundedExpiresAt args.createdAt args.expiresAt (resolveDefaultTtl args.settings) - 1, 0, 0, 0⟩
      0 (sender args) none "" (some ⟨.web, .freshSignIn, 0, none, some "1"⟩)]

theorem createPendingRequest_first (args : CreateArgs) :
    createPendingRequest D args Store.empty = .ok (0, insertRequest D args Store.empty) := by
  cases hkey : args.idempotencyKey with
  | none => simp [createPendingRequest, hkey, Store.empty]
  | some key =>
    simp [createPendingRequest, hkey, resolveIdempotentRequest, findIdempotentRequest,
      insertIdempotentRequest, Store.empty]

/-- The tables after the first park: its row is the first, and no decision is on record. -/
theorem insertRequest_first (args : CreateArgs) :
    (insertRequest D args Store.empty).requests[0]? = some (insertedRow D Store.empty args) ∧
      ∀ row ∈ (insertRequest D args Store.empty).audit, row.path = .request := by
  have hfile := insertRequest_file_new D args (s := Store.empty) rfl
  refine ⟨congrArg File.row hfile, ?_⟩
  intro row hrow
  unfold insertRequest at hrow
  simp only at hrow
  split at hrow
  · rw [List.mem_singleton.mp hrow]; rfl
  · rw [List.mem_singleton.mp hrow]; rfl

theorem not_le_sub_one (t : Int) : ¬t ≤ t - 1 := by omega

section
variable {args : CreateArgs} (h : args.proposedEffect = none)
include h

theorem requestSafetyLevel_lost (s : Store) : requestSafetyLevel (insertedRow D s args) = none := by
  have heffect : (insertedRow D s args).proposedEffect =
      identifierEffect args.opId args.connectorId args.targetId := by
    simp [insertedRow, newRequest, h]
  unfold requestSafetyLevel
  rw [heffect]
  cases args.targetId with
  | none => rfl
  | some id => rfl

theorem sender_checks :
    ApproveChecks D breakGlassSettings
      ⟨boundedExpiresAt args.createdAt args.expiresAt (resolveDefaultTtl args.settings) - 1, 0, 0, 0⟩
      0 (sender args) none (some ⟨.web, .freshSignIn, 0, none, some "1"⟩)
      (insertRequest D args Store.empty) (insertedRow D Store.empty args) .breakGlassSelfApproval
      false := by
  obtain ⟨hrow, haudit⟩ := insertRequest_first D args
  have hlevel := requestSafetyLevel_lost D h Store.empty
  have hsub : (sender args).sub = (insertedRow D Store.empty args).principalSub := by
    unfold sender insertedRow newRequest
    cases args.requester <;> rfl
  have hdestructive : isDestructive (insertedRow D Store.empty args) = false := by
    simp [isDestructive, hlevel]
  refine ⟨hrow, rfl, rfl, rfl, ?_, ?_, ?_, fun p hp => (by cases hp), ?_, ?_⟩
  · -- one microsecond before its deadline
    have hdeadline : (insertedRow D Store.empty args).expiresAt =
        some (boundedExpiresAt args.createdAt args.expiresAt (resolveDefaultTtl args.settings)) :=
      rfl
    simp only [deadlineHasPassed, hdeadline, decide_eq_false_iff_not]
    exact not_le_sub_one _
  · have htoken : requestWaitsOnlyForTokenCall (insertedRow D Store.empty args) = false := by
      simp [requestWaitsOnlyForTokenCall, hlevel]
    have hself : (sender args).maySelfApprove = false := rfl
    simp [checkApproverGroup, checkSelfApproval, hsub, hself, htoken, hlevel, isHighRisk,
      breakGlassSettings]
  · simp only [checkApproverRoleFloor]
    rw [show (sender args).tenantRole = .tenantAdmin from rfl, roleFloorDenial_tenantAdmin]
  · simp [checkDestructivePreviewBinding, hdestructive]
  · intro a ha
    cases ha
    have hscan : ∀ since : Time, signInScan (insertRequest D args Store.empty) (sender args).sub
        since = [] := by
      intro since
      rw [signInScan, List.filter_eq_nil_iff]
      intro row hmem
      simp [haudit row hmem]
    simp [checkSignInUse, Tx.bind_apply, hscan, hdestructive, approvalSignInMaxAge,
      breakGlassSettings, Settings.default, seconds]

theorem selfApprovedRun_approved :
    parkedCall 0 (history D (selfApprovedRun args)).events =
        some (args, callSettings Store.empty args) ∧
      ∃ auth r, .approved 0 (sender args) .breakGlassSelfApproval auth r ∈
          (history D (selfApprovedRun args)).events ∧
        r.principalSub = (sender args).sub := by
  let approve : Act := .approve breakGlassSettings
    ⟨boundedExpiresAt args.createdAt args.expiresAt (resolveDefaultTtl args.settings) - 1, 0, 0, 0⟩
    0 (sender args) none "" (some ⟨.web, .freshSignIn, 0, none, some "1"⟩)
  let c := (queue D).next (queue D).begin_ (.create args false none)
  obtain ⟨hstore, hes⟩ := worldStep_create D (w := ⟨Store.empty, []⟩) false none
    (createPendingRequest_first D args)
  have hc : c.state.store = insertRequest D args Store.empty := hstore
  have hevents : c.events = [.parked 0 args (callSettings Store.empty args)] := hes
  have happrove := approveRequest_of_checks (sender_checks D h)
    (show checkDelegation breakGlassSettings 0 (sender args) "" = .ok none from rfl)
  have hparked : parkedCall 0 c.events = some (args, callSettings Store.empty args) := by
    rw [hevents]
    rfl
  have hseen : .approved 0 (sender args) .breakGlassSelfApproval
      (some ⟨.web, .freshSignIn, 0, none, some "1"⟩)
      ((insertedRow D Store.empty args).approvedBy (sender args) 0) ∈
        (worldStep D c.state approve).2 := by
    simp only [worldStep, approve]
    rw [hc]
    split
    · rename_i hfail
      rw [hfail] at happrove
      cases happrove
    · rename_i hok
      rw [hok] at happrove
      cases happrove
      exact List.mem_singleton_self _
  refine ⟨parkedCall_append hparked _, _, _, List.mem_append_right _ hseen, ?_⟩
  change (newRequest D Store.empty args).principalSub = (sender args).sub
  unfold newRequest sender
  cases args.requester <;> rfl

end

/-! ## The rule -/

/-- Every approve that commits on a parked dangerous or destructive call is by a person the
high-risk rule names, exactly when nothing raised while its effect was built. -/
theorem high_risk_approvers (x : ParkContext) (c : EffectCall) (args : CreateArgs)
    (hpark : Parks D x c args)
    (hlevel : c.descriptor.safetyLevel = .dangerous ∨ c.descriptor.safetyLevel = .destructive) :
    (∀ acts id settings operator rule auth r,
      parkedCall id (history D acts).events = some (args, settings) →
      .approved id operator rule auth r ∈ (history D acts).events →
      HighRiskApproval operator r rule) ↔
    effectRaises D.classifyOp x.hooks c = false := by
  obtain ⟨heffect, -, hdestructive⟩ := hpark.effect
  constructor
  · -- a lost effect: the sender approves
    intro hall
    by_contra hraises
    rw [Bool.not_eq_false, ← buildProposedEffect_eq_none, ← heffect] at hraises
    obtain ⟨hparked, auth, r, happroved, hsub⟩ := selfApprovedRun_approved D hraises
    have hrule := hall (selfApprovedRun args) 0 _ _ _ auth r hparked happroved
    exact hrule.notBreakGlass rfl
  · intro hclean acts id settings operator rule auth r hparked happroved
    obtain ⟨args', st, hparked', hof, hhuman, settings', hgroup⟩ :=
      approvalsChecked_history D acts id operator rule auth r happroved
    cases hparked.symm.trans hparked'
    obtain ⟨effect, hbuilt⟩ : ∃ effect, buildProposedEffect D.classifyOp x.hooks c = some effect := by
      cases hb : buildProposedEffect D.classifyOp x.hooks c with
      | some effect => exact ⟨effect, rfl⟩
      | none =>
        rw [buildProposedEffect_eq_none, hclean] at hb
        cases hb
    -- the stored effect names the operation's own level
    have hstored : r.proposedEffect = effect := by
      have := hof.proposedEffect
      rw [heffect, hbuilt] at this
      exact this
    have hrisk : isHighRisk (requestSafetyLevel r) = true := by
      unfold requestSafetyLevel
      rw [hstored, buildProposedEffect_safetyLevel hbuilt]
      exact isHighRisk_value hlevel
    exact checkApproverGroup_highRisk hhuman hrisk hgroup

/-- A dangerous call of a person. -/
def dangerousCall : EffectCall where
  operator := person "asker" .operator
  actorSub := none
  connectorId := "vmware-1"
  descriptor := ⟨"vm.power.reset", .dangerous, false, none, [], .null⟩
  targetId := some 0
  params := [("vm", .str "vm-7")]

/-- No check stands in the way of the park. The connector's class may raise when it is made. -/
def dangerousPark (resolutionRaises : Bool) : ParkContext where
  parkCheck := none
  ingestedOps := some none
  hooks := ⟨resolutionRaises, none, some [("vm", .str "vm-7")], none⟩
  preview := ⟨"ok", "p"⟩
  workRef := none
  runningReleaseId := none
  settings := Settings.default
  lookupNow := 0
  expireNow := 0
  createdAt := 0
  auditNow := 0

/-- What the queue is given for the call. -/
def dangerousArgs (resolutionRaises : Bool) : CreateArgs :=
  parkArgs smallDeployment (dangerousPark resolutionRaises) dangerousCall
    (buildProposedEffect smallDeployment.classifyOp (dangerousPark resolutionRaises).hooks
      dangerousCall)

theorem dangerousArgs_parks (resolutionRaises : Bool) :
    Parks smallDeployment (dangerousPark resolutionRaises) dangerousCall
      (dangerousArgs resolutionRaises) := by
  refine .inl ⟨none, none, false, ?_⟩
  cases resolutionRaises <;> rfl

/-- A connector that resolves: only the high-risk rule approves the call. -/
theorem high_risk_approvers_resolved :
    effectRaises smallDeployment.classifyOp (dangerousPark false).hooks dangerousCall = false ∧
    ((∀ acts id settings operator rule auth r,
      parkedCall id (history smallDeployment acts).events = some (dangerousArgs false, settings) →
      .approved id operator rule auth r ∈ (history smallDeployment acts).events →
      HighRiskApproval operator r rule) ↔
    effectRaises smallDeployment.classifyOp (dangerousPark false).hooks dangerousCall = false) :=
  ⟨by decide, high_risk_approvers smallDeployment (dangerousPark false) dangerousCall
    (dangerousArgs false) (dangerousArgs_parks false) (.inl rfl)⟩

/-- A connector whose class raises: the sender approves the dangerous call under break-glass. -/
theorem lost_effect_self_approved :
    ¬∀ (D : Deployment) (x : ParkContext) (c : EffectCall) (args : CreateArgs),
      Parks D x c args →
      (c.descriptor.safetyLevel = .dangerous ∨ c.descriptor.safetyLevel = .destructive) →
      ∀ acts id settings operator rule auth r,
        parkedCall id (history D acts).events = some (args, settings) →
        .approved id operator rule auth r ∈ (history D acts).events →
        HighRiskApproval operator r rule := by
  intro h
  have hlost : (dangerousArgs true).proposedEffect = none := by rfl
  obtain ⟨hparked, auth, r, happroved, -⟩ := selfApprovedRun_approved smallDeployment hlost
  have hrule := h smallDeployment (dangerousPark true) dangerousCall (dangerousArgs true)
    (dangerousArgs_parks true) (.inl rfl) (selfApprovedRun (dangerousArgs true)) 0 _ _ _ auth r
    hparked happroved
  exact hrule.notBreakGlass rfl

end Meho.Dispatch
