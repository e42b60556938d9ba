import Meho.Approval.Guarantees

/- A destructive sign-in approves one thing only.

A sign-in is named by the person, the session and the sign-in time. A decision
row keeps the hash of the three, and whether the approve took the sign-in up
for good. An approve scans the person's decision rows back to a minute and a
second before the sign-in time. An earlier use is inside that window because
the presence check accepts no sign-in more than a minute ahead of the clock,
as long as the clock does not fall back by more than a second between that
check and the decision row.

`destructive_sign_in_single_use` is the rule for every run of approves so
presented. `sign_in_rule_limits` shows that the session and the clock cannot be
left out: two sessions of one person may share a second, and a clock that falls
back hides an earlier use. -/
namespace Meho.Approval
open Meho.Lib

variable (D : Deployment)

/-! ## Approves and the sign-ins they use -/

/-- One of the presence checks accepted the sign-in at `freshNow`. -/
def presentedAt (settings : Settings) (operator : Operator) (auth : ApprovalAuth)
    (freshNow : Time) : Prop :=
  checkFreshApprovalSignIn operator settings freshNow = some auth ∨
    checkFreshWebApprovalSignIn operator settings freshNow = some auth

/-- An approve's proof of presence passed a presence check, and the clock did not fall back by
more than a second from there to the decision row. -/
def Act.Presented : Act → Prop
  | .approve settings clock _ operator _ _ (some auth) =>
    ∃ freshNow, presentedAt settings operator auth freshNow ∧ freshNow ≤ clock.audit + seconds 1
  | _ => True

/-- The sign-in an approval used: the person, the session, the sign-in time. -/
def Event.signIn : Event → Option (String × Option String × Int)
  | .approved _ operator _ (some auth) _ => some (operator.sub, auth.sid, auth.authTime)
  | _ => none

def Event.approvesDestructive : Event → Bool
  | .approved _ _ _ _ request => isDestructive request
  | _ => false

theorem authTime_le_of_skew (authTime now : Int)
    (h : -clockSkewSeconds * 1000000 ≤ now - authTime * 1000000) :
    (authTime - clockSkewSeconds) * 1000000 ≤ now := by
  unfold clockSkewSeconds at *
  omega

/-- The scan window of a sign-in opens a second before the earliest reading that can accept it. -/
theorem window_le_of_clock (authTime freshNow auditNow : Int)
    (h : (authTime - clockSkewSeconds) * 1000000 ≤ freshNow)
    (hclock : freshNow ≤ auditNow + 1 * 1000000) :
    (authTime - clockSkewSeconds - 1) * 1000000 ≤ auditNow := by
  unfold clockSkewSeconds at *
  omega

variable {settings : Settings} {operator : Operator} {auth : ApprovalAuth}

theorem presentedAt_authTime {freshNow : Time} (h : presentedAt settings operator auth freshNow) :
    seconds (auth.authTime - clockSkewSeconds) ≤ freshNow := by
  have hfresh : ∀ {authTime maxAge : Int}, operator.authTime = some authTime →
      hasFreshSignIn operator freshNow maxAge = true →
      seconds (-clockSkewSeconds) ≤ freshNow - seconds authTime := by
    intro authTime maxAge hauth h
    unfold hasFreshSignIn at h
    rw [hauth] at h
    simp only [Bool.and_eq_true, decide_eq_true_eq] at h
    exact h.1.2
  have hbound : ∃ authTime, operator.authTime = some authTime ∧ auth.authTime = authTime ∧
      seconds (-clockSkewSeconds) ≤ freshNow - seconds authTime := by
    unfold presentedAt checkFreshApprovalSignIn checkFreshWebApprovalSignIn at h
    cases hauth : operator.authTime with
    | none =>
      rw [hauth] at h
      rcases h with h | h <;> cases h
    | some authTime =>
      rw [hauth] at h
      rcases h with h | h
      · simp only at h
        split at h
        · rename_i hc
          cases h
          simp only [Bool.and_eq_true] at hc
          exact ⟨authTime, rfl, rfl, hfresh hauth hc.2⟩
        · cases h
      · simp only at h
        split at h
        · rename_i hc
          cases h
          simp only [Bool.and_eq_true] at hc
          exact ⟨authTime, rfl, rfl, hfresh hauth hc.2⟩
        · cases h
  obtain ⟨authTime, -, heq, hle⟩ := hbound
  rw [heq]
  exact authTime_le_of_skew authTime freshNow hle

/-! ## The decision row of an approve names its sign-in -/

theorem approveExtra_approvalAuth (operator : Operator) (request : ApprovalRequest)
    (rule : ApprovalRule) (reason : String) (auth : ApprovalAuth) (singleUse : Bool)
    (delegation : Option Delegation) (base : Dict) :
    dictGet (dictUpdate base
      (approveExtra D.hashing operator request rule reason (some auth) singleUse delegation))
      "approval_auth" = some (auth.auditPayload D.hashing operator.sub singleUse) := by
  have hdelegation : ∀ y ∈ delegationExtra delegation, y.1 ≠ "approval_auth" := by
    intro y hy
    cases delegation with
    | none => cases hy
    | some d =>
      rw [List.mem_singleton.mp hy]
      exact (by decide : "delegation" ≠ "approval_auth")
  unfold approveExtra
  simp only [List.append_assoc, List.singleton_append]
  rw [← List.append_assoc]
  exact dictGet_dictUpdate_last base _ _ hdelegation

theorem auditPayload_earlierUse (auth : ApprovalAuth) (sub : String) (singleUse : Bool)
    {row : AuditRow}
    (h : dictGet row.payload "approval_auth" =
      some (auth.auditPayload D.hashing sub singleUse)) :
    ∃ use, earlierUse (auth.signInKey D.hashing sub) row = some use ∧
      isSingleUse use = singleUse := by
  unfold earlierUse
  rw [h]
  cases singleUse with
  | true | false =>
    simp [ApprovalAuth.auditPayload, dictGetStr, dictGet, Json.asStr?, isSingleUse]

/-- The log holds the use of a sign-in by an approval, where a later scan for it looks. -/
def UseOnRecord (s : Store) (operator : Operator) (auth : ApprovalAuth) (destructive : Bool) :
    Prop :=
  ∃ row ∈ s.audit, row.operatorSub = operator.sub ∧ row.path = .decision ∧
    seconds (auth.authTime - clockSkewSeconds - 1) ≤ row.occurredAt ∧
    ∃ use, earlierUse (auth.signInKey D.hashing operator.sub) row = some use ∧
      isSingleUse use = destructive

variable {id : Nat} {s s' : Store}

/-- The check of a committed approve: no earlier use on record is destructive, and none is there
at all when the request is. -/
theorem checkSignInUse_ok {ageNow : Time} {request : ApprovalRequest} {singleUse : Bool}
    (h : checkSignInUse D.hashing settings ageNow id request operator auth s = (.ok singleUse, s')) :
    ageNow - seconds auth.authTime ≤
        seconds (approvalSignInMaxAge settings (isDestructive request)) ∧
      singleUse = isDestructive request ∧
      ∀ use ∈ (signInScan s operator.sub (seconds (auth.authTime - clockSkewSeconds - 1))).filterMap
        (earlierUse (auth.signInKey D.hashing operator.sub)),
        isDestructive request = false ∧ isSingleUse use = false := by
  unfold checkSignInUse at h
  simp only at h
  split at h
  · cases h
  · rename_i hage
    obtain ⟨s₁, hread, h⟩ := Tx.ReadOnly.read.bind_eq_ok h
    cases hread
    split at h
    · cases h
    · rename_i hany
      cases h
      refine ⟨Int.not_lt.mp hage, rfl, ?_⟩
      intro use huse
      simp only [Bool.not_eq_true, List.any_eq_false] at hany
      simpa using hany use huse

section
variable {clock : ApproveClock} {params : Option Params} {reason : String} {r : ApprovalRequest}
    {rule : ApprovalRule}
    (h : approveRequest D settings clock id operator params reason (some auth) s = (.ok (r, rule), s'))
include h

theorem approve_on_record (hclock : seconds (auth.authTime - clockSkewSeconds - 1) ≤ clock.audit) :
    UseOnRecord D s' operator auth (isDestructive r) := by
  obtain ⟨request, singleUse, delegation, hchecks, rfl, rfl⟩ := approveRequest_ok h
  obtain ⟨-, hsingle, -⟩ := checkSignInUse_ok D (hchecks.signIn auth rfl)
  let row := auditRow .approvalDecision operator id request .decision 200 clock.audit
    (approveExtra D.hashing operator request rule reason (some auth) singleUse delegation)
  have hpayload : dictGet row.payload "approval_auth" =
      some (auth.auditPayload D.hashing operator.sub singleUse) :=
    approveExtra_approvalAuth D operator request rule reason auth singleUse delegation _
  obtain ⟨use, huse, hs⟩ := auditPayload_earlierUse D auth operator.sub singleUse hpayload
  refine ⟨row, List.mem_append_right _ (List.mem_singleton.mpr rfl), rfl, rfl, hclock, use, huse, ?_⟩
  exact hs.trans hsingle

theorem approve_uses_alone {operator' : Operator} {auth' : ApprovalAuth} {destructive : Bool}
    (hrec : UseOnRecord D s operator' auth' destructive) (hsub : operator'.sub = operator.sub)
    (hsid : auth'.sid = auth.sid) (htime : auth'.authTime = auth.authTime) :
    destructive = false ∧ isDestructive r = false := by
  obtain ⟨request, singleUse, delegation, hchecks, rfl, -⟩ := approveRequest_ok h
  obtain ⟨-, -, hscan⟩ := checkSignInUse_ok D (hchecks.signIn auth rfl)
  obtain ⟨row, hrow, hop, hpath, hwhen, use, huse, hs⟩ := hrec
  -- the same sign-in has the same key and the same window
  have hkey : auth'.signInKey D.hashing operator'.sub = auth.signInKey D.hashing operator.sub := by
    unfold ApprovalAuth.signInKey
    rw [hsub, hsid, htime]
  have hmem : row ∈ signInScan s operator.sub
      (seconds (auth.authTime - clockSkewSeconds - 1)) := by
    refine List.mem_filter.mpr ⟨hrow, ?_⟩
    rw [htime] at hwhen
    simp [hop, hsub, hpath, hwhen]
  rw [hkey] at huse
  obtain ⟨hdes, hnot⟩ := hscan use (List.mem_filterMap.mpr ⟨row, hmem, huse⟩)
  exact ⟨hs.symm.trans hnot, hdes⟩

end

/-! ## Every run -/

/-- The invariant: every approval's use of a sign-in is on record, and no two approvals share a
sign-in when one of them is destructive. -/
structure SignInOk (c : Config World Event) : Prop where
  recorded : ∀ id operator rule auth r, .approved id operator rule (some auth) r ∈ c.events →
    UseOnRecord D c.state.store operator auth (isDestructive r)
  alone : c.events.Pairwise fun e f => e.signIn.isSome = true → f.signIn = e.signIn →
    e.approvesDestructive = false ∧ f.approvesDestructive = false

theorem UseOnRecord.step {c : Config World Event} {destructive : Bool}
    (h : UseOnRecord D c.state.store operator auth destructive) (a : Act) :
    UseOnRecord D ((queue D).next c a).state.store operator auth destructive := by
  obtain ⟨row, hrow, hrest⟩ := h
  exact ⟨row, worldStep_audit D c.state a hrow, hrest⟩

/-- An event with a sign-in is an approval with a proof of presence. -/
theorem Event.signIn_isSome {e : Event} (h : e.signIn.isSome = true) :
    ∃ id operator rule auth r, e = .approved id operator rule (some auth) r := by
  cases e with
  | approved id operator rule auth r =>
    cases auth with
    | none => cases h
    | some auth => exact ⟨id, operator, rule, auth, r, rfl⟩
  | _ => cases h

theorem signInOk_next (c : Config World Event) (a : Act) (h : SignInOk D c) (ha : a.Presented) :
    SignInOk D ((queue D).next c a) := by
  refine ⟨?_, ?_⟩
  · intro id operator rule auth r he
    rw [Machine.next_events] at he
    rcases List.mem_append.mp he with hold | hnew
    · exact (h.recorded id operator rule auth r hold).step D a
    · obtain ⟨settings, clock, params, reason, rfl, hc, -⟩ := worldStep_approved D hnew
      obtain ⟨freshNow, hpresent, hclock⟩ := ha
      have hskew := presentedAt_authTime hpresent
      exact approve_on_record D hc (window_le_of_clock _ _ _ hskew hclock)
  · rw [Machine.next_events, List.pairwise_append]
    refine ⟨h.alone, ?_, ?_⟩
    · -- an action approves once at most
      by_cases hone : ∃ e ∈ (worldStep D c.state a).2, e.signIn.isSome = true
      · obtain ⟨e, he, hsome⟩ := hone
        obtain ⟨id, operator, rule, auth, r, rfl⟩ := Event.signIn_isSome hsome
        obtain ⟨settings, clock, params, reason, -, -, hes⟩ := worldStep_approved D he
        change (worldStep D c.state a).2.Pairwise _
        rw [hes]
        exact List.pairwise_singleton _ _
      · refine List.pairwise_of_forall_mem_list fun e he f _ hsome _ => ?_
        exact absurd ⟨e, he, hsome⟩ hone
    · intro e he f hf hsome hsame
      have hsome' : f.signIn.isSome = true := by rw [hsame]; exact hsome
      obtain ⟨id, operator, rule, auth, r, rfl⟩ := Event.signIn_isSome hsome
      obtain ⟨id', operator', rule', auth', r', rfl⟩ := Event.signIn_isSome hsome'
      obtain ⟨settings, clock, params, reason, -, hc, -⟩ := worldStep_approved D hf
      simp only [Event.signIn, Option.some.injEq, Prod.mk.injEq] at hsame
      exact approve_uses_alone D hc (h.recorded id operator rule auth r he) hsame.1.symm
        hsame.2.1.symm hsame.2.2.symm

theorem signInOk_begin : SignInOk D (queue D).begin_ where
  recorded _ _ _ _ _ he := by cases he
  alone := List.Pairwise.nil

/-- Among approves whose sign-in passed a presence check, with no clock falling back by more
than a second in between, a sign-in that approved a destructive request approved nothing
else; and no approve commits with a sign-in older than the request's risk level allows. -/
theorem destructive_sign_in_single_use (acts : List Act) (h : ∀ a ∈ acts, a.Presented) :
    ((history D acts).events.Pairwise fun e f =>
      e.signIn.isSome = true → f.signIn = e.signIn →
      e.approvesDestructive = false ∧ f.approvesDestructive = false) ∧
    (∀ settings clock id operator params reason auth r rule s',
      approveRequest D settings clock id operator params reason (some auth)
        (history D acts).state.store = (.ok (r, rule), s') →
      clock.age - seconds auth.authTime ≤
        seconds (approvalSignInMaxAge settings (isDestructive r))) := by
  refine ⟨((queue D).run_induct_of_forall (signInOk_next D) (signInOk_begin D) h).alone, ?_⟩
  intro settings clock id operator params reason auth r rule s' hc
  obtain ⟨request, singleUse, delegation, hchecks, rfl, -⟩ := approveRequest_ok hc
  exact (checkSignInUse_ok D (hchecks.signIn auth rfl)).1

/-! ## Where the rule ends -/

/-- A presence check accepted the sign-in, whatever the clock read afterwards. -/
def Act.Checked : Act → Prop
  | .approve settings _ _ operator _ _ (some auth) =>
    ∃ freshNow, presentedAt settings operator auth freshNow
  | _ => True

/-- The person and the time of a sign-in, without the session. -/
def subjectAndTime (k : String × Option String × Int) : String × Int := (k.1, k.2.2)

/-- An administrator who signed in at second 1000, in a session. -/
def signedIn (sid : String) : Operator :=
  { person "admin" .tenantAdmin with authTime := some 1000, sid := some sid, acr := some "1" }

def webAuth (sid : String) : ApprovalAuth := ⟨.web, .freshSignIn, 1000, some sid, some "1"⟩

/-- An approve in the web interface whose decision row is written at `auditNow`. -/
def webApprove (id : Nat) (sid : String) (auditNow : Time) : Act :=
  .approve Settings.default ⟨seconds 1010, seconds 1010, seconds 1010, auditNow⟩ id (signedIn sid)
    none "" (some (webAuth sid))

/-- A destructive request and an ordinary one. -/
def twoRequests : List Act :=
  [.create { smallCall with
      proposedEffect := some [("safety_level", .str "destructive")], previewHash := some "p" }
      false none,
    .create smallCall false none]

theorem webAuth_presentedAt (sid : String) (h : sid = "s1" ∨ sid = "s2") :
    presentedAt Settings.default (signedIn sid) (webAuth sid) (seconds 1010) ∧
      presentedAt Settings.default (signedIn sid) (webAuth sid) (seconds 940) := by
  rcases h with rfl | rfl
  · exact ⟨.inr (by decide), .inr (by decide)⟩
  · exact ⟨.inr (by decide), .inr (by decide)⟩

/-- With one session and a steady clock the second approve with the sign-in is refused. -/
theorem destructive_sign_in_single_use_session :
    ((history smallDeployment
        (twoRequests ++ [webApprove 0 "s1" (seconds 1010),
          webApprove 1 "s1" (seconds 1010)])).events.Pairwise
      fun e f => e.signIn.isSome = true → f.signIn = e.signIn →
        e.approvesDestructive = false ∧ f.approvesDestructive = false) ∧
    (∀ settings clock id operator params reason auth r rule s',
      approveRequest smallDeployment settings clock id operator params reason (some auth)
        (history smallDeployment (twoRequests ++
          [webApprove 0 "s1" (seconds 1010), webApprove 1 "s1" (seconds 1010)])).state.store =
        (.ok (r, rule), s') →
      clock.age - seconds auth.authTime ≤
        seconds (approvalSignInMaxAge settings (isDestructive r))) := by
  apply destructive_sign_in_single_use
  have hok : ∀ id, (webApprove id "s1" (seconds 1010)).Presented := by
    intro id
    exact ⟨seconds 1010, (webAuth_presentedAt "s1" (.inl rfl)).1, by decide⟩
  intro a ha
  simp only [twoRequests, List.cons_append, List.nil_append, List.mem_cons, List.not_mem_nil,
    or_false] at ha
  rcases ha with rfl | rfl | rfl | rfl
  · trivial
  · trivial
  · exact hok 0
  · exact hok 1

/-- Two sessions of one person that share a second are two sign-ins, and a clock that falls back
 by two seconds after the presence check takes the decision row out of the scan window. -/
theorem sign_in_rule_limits :
    (¬∀ (D : Deployment) (acts : List Act), (∀ a ∈ acts, a.Presented) →
      (history D acts).events.Pairwise fun e f => e.signIn.isSome = true →
        f.signIn.map subjectAndTime = e.signIn.map subjectAndTime →
        e.approvesDestructive = false ∧ f.approvesDestructive = false) ∧
    (¬∀ (D : Deployment) (acts : List Act), (∀ a ∈ acts, a.Checked) →
      (history D acts).events.Pairwise fun e f => e.signIn.isSome = true →
        f.signIn = e.signIn → e.approvesDestructive = false ∧ f.approvesDestructive = false) := by
  refine ⟨fun h => ?_, fun h => ?_⟩
  · have hrun := h smallDeployment
      (twoRequests ++ [webApprove 0 "s1" (seconds 1010), webApprove 1 "s2" (seconds 1010)]) (by
        intro a ha
        simp only [twoRequests, List.cons_append, List.nil_append, List.mem_cons,
          List.not_mem_nil, or_false] at ha
        rcases ha with rfl | rfl | rfl | rfl
        · trivial
        · trivial
        · exact ⟨seconds 1010, (webAuth_presentedAt "s1" (.inl rfl)).1, by decide⟩
        · exact ⟨seconds 1010, (webAuth_presentedAt "s2" (.inr rfl)).1, by decide⟩)
    revert hrun
    decide
  · have hrun := h smallDeployment
      (twoRequests ++ [webApprove 0 "s1" (seconds 938), webApprove 1 "s1" (seconds 1010)]) (by
        intro a ha
        simp only [twoRequests, List.cons_append, List.nil_append, List.mem_cons,
          List.not_mem_nil, or_false] at ha
        rcases ha with rfl | rfl | rfl | rfl
        · trivial
        · trivial
        · exact ⟨seconds 940, (webAuth_presentedAt "s1" (.inl rfl)).2⟩
        · exact ⟨seconds 1010, (webAuth_presentedAt "s1" (.inl rfl)).1⟩)
    revert hrun
    decide

end Meho.Approval
