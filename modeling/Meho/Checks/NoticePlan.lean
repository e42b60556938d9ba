import Meho.Checks.Notify

/- What the task of a notice does with the keys of the dashboard.

Only edges of the dashboard operate on its keys, and only with their first operation: a
crossing claims the key of its state, a recovery clears the keys of all states. After
that a task claims windows of members and mails, and mails about the dashboard once at
most. A notice about a member that got worse touches no key of the dashboard. -/
namespace Meho.Checks
open Meho.Lib

/-! ## Edges -/

namespace DashboardNotice

def emailSet (notice : DashboardNotice) : Bool := notice.notifyEmail.any (· ≠ "")

/-- The dashboard has become green. -/
def recovers (notice : DashboardNotice) : Bool :=
  notice.memberChange.isNone && !suppressibleStates.contains notice.currentState

def reachesFloor (notice : DashboardNotice) : Bool :=
  crossesThreshold notice.previousState notice.currentState notice.notifyMinState

/-- The dashboard has come into the state, and its mails are about such edges. -/
def crossesInto (notice : DashboardNotice) (state : CheckState) : Bool :=
  notice.memberChange.isNone && notice.currentState = state && notice.emailSet && notice.reachesFloor

/-- A recipient of the dashboard is allowed. -/
def delivers (isAllowed : String → Bool) (notice : DashboardNotice) : Bool :=
  notice.notifyEmail.any fun email => !(allowedRecipients isAllowed email).isEmpty

/-- The members that a notice is about got worse. -/
def Worsened (notice : DashboardNotice) : Prop :=
  ∀ change ∈ notice.memberChange.toList ++ notice.memberChanges,
    isWorsening change.previousState change.currentState = true

/-- **The notices of a claim are about members that got worse.** -/
theorem claim_worsened {dashboard dashboard' : Dashboard} {members members' : List MemberRow}
    {now : Time} {number : Nat} {claims : DashboardClaims}
    (h : claimDashboardTransition dashboard members now number = (dashboard', members', claims))
    {notice : DashboardNotice}
    (hnotice : notice ∈ claims.transition.toList.map (·.notice) ++ claims.memberNotices) :
    notice.Worsened := by
  have hchanges : ∀ change ∈ (claimMemberChanges members now).2,
      isWorsening change.previousState change.currentState = true := by
    intro change hchange
    rw [claimMemberChanges_snd] at hchange
    obtain ⟨⟨before, after⟩, -, hbetween⟩ := List.mem_filterMap.mp hchange
    unfold changeBetween at hbetween
    split at hbetween
    · split at hbetween
      · rename_i hworse
        cases hbetween
        exact hworse
      · cases hbetween
    · cases hbetween
  obtain ⟨-, -, hclaims⟩ := claim_spec dashboard members now number _ _ _ h
  rcases hclaims with ⟨-, htransition, hnotices⟩ | ⟨-, hnotices, transition, htransition, hown⟩
  · rw [htransition, hnotices] at hnotice
    obtain ⟨change, hchange, rfl⟩ := List.mem_map.mp hnotice
    intro other hother
    obtain rfl := List.mem_singleton.mp hother
    exact hchanges _ hchange
  · rw [htransition, hnotices, List.append_nil] at hnotice
    obtain rfl := List.mem_singleton.mp hnotice
    show transition.notice.Worsened
    rw [hown]
    exact hchanges

/-- The task of the notice operates on the key of the state. -/
def touches (windowMinutes : Nat) (notice : DashboardNotice) (state : CheckState) : Bool :=
  0 < windowMinutes && (notice.crossesInto state || notice.recovers && notice.emailSet)

theorem emailSet_of_delivers {isAllowed : String → Bool} {notice : DashboardNotice}
    (h : notice.delivers isAllowed = true) : notice.emailSet = true := by
  unfold delivers at h
  unfold emailSet
  cases hemail : notice.notifyEmail with
  | none =>
    rw [hemail] at h
    cases h
  | some email =>
    rw [hemail] at h
    by_cases hempty : email = ""
    · subst hempty
      cases h
    · exact decide_eq_true hempty

end DashboardNotice

/-! ## Trees of operations -/

namespace Notification

/-- No path operates on a key of the dashboard, and all mails are as `mail` says. -/
def Only (mail : DashboardNotice → Prop) : Notification → Prop
  | .finished => True
  | .clear _ => False
  | .claim (.dashboard _) _ _ _ => False
  | .claim (.member _ _) won lost failed => won.Only mail ∧ lost.Only mail ∧ failed.Only mail
  | .deliver notice _ rest => mail notice ∧ rest.Only mail

/-- Every path mails about the notice. -/
def Due (notice : DashboardNotice) : Notification → Prop
  | .finished => False
  | .clear rest => rest.Due notice
  | .claim _ won lost failed => won.Due notice ∧ lost.Due notice ∧ failed.Due notice
  | .deliver about _ rest => about = notice ∨ rest.Due notice

/-- The most mails about the dashboard on a path. -/
def mails : Notification → Nat
  | .finished => 0
  | .clear rest => rest.mails
  | .claim _ won lost failed => max won.mails (max lost.mails failed.mails)
  | .deliver notice _ rest => notice.memberChange.isNone.toNat + rest.mails

/-- The most operations on a path. -/
def length : Notification → Nat
  | .finished => 0
  | .clear rest => rest.length + 1
  | .claim _ won lost failed => max won.length (max lost.length failed.length) + 1
  | .deliver _ _ rest => rest.length + 1

/-- The next operation is on the key of the state. -/
def asks (state : CheckState) : Notification → Bool
  | .clear _ => true
  | .claim key _ _ _ => key = .dashboard state
  | _ => false

section
variable {P : DashboardNotice → Prop} {p : Notification}

theorem Only.mono {Q : DashboardNotice → Prop} (hPQ : ∀ n, P n → Q n) (h : p.Only P) :
    p.Only Q := by
  induction p with
  | finished => trivial
  | clear rest ih => exact h.elim
  | claim key won lost failed ihwon ihlost ihfailed =>
    cases key with
    | dashboard state => exact h.elim
    | member sensorId state => exact ⟨ihwon h.1, ihlost h.2.1, ihfailed h.2.2⟩
  | deliver notice recipients rest ih => exact ⟨hPQ notice h.1, ih h.2⟩

theorem Only.asks (h : p.Only P) (state : CheckState) : p.asks state = false := by
  cases p with
  | finished => rfl
  | clear rest => exact h.elim
  | claim key won lost failed =>
    cases key with
    | dashboard state => exact h.elim
    | member sensorId state => rfl
  | deliver notice recipients rest => rfl

end

theorem Only.mails_eq_zero {p : Notification} (h : p.Only fun n => n.memberChange.isNone = false) :
    p.mails = 0 := by
  induction p with
  | finished => rfl
  | clear rest ih => exact h.elim
  | claim key won lost failed ihwon ihlost ihfailed =>
    cases key with
    | dashboard state => exact h.elim
    | member sensorId state =>
      simp only [mails, ihwon h.1, ihlost h.2.1, ihfailed h.2.2, Nat.max_self]
  | deliver notice recipients rest ih => simp only [mails, h.1, ih h.2, Bool.toNat_false]

end Notification

/-! ## What the task of a notice does -/

section Program
variable {windowMinutes : Nat} {isAllowed : String → Bool} {mail : DashboardNotice → Prop}
variable {notice : DashboardNotice} {state : CheckState} {email : String}

theorem suppressible_of_worsening {previous current : CheckState}
    (h : isWorsening previous current = true) : suppressibleStates.contains current = true := by
  cases current with
  | ok | skip => cases previous <;> cases h
  | degraded => rfl
  | critical => rfl
  | unknown => rfl

theorem only_deliverTo {rest : Notification} (hmail : mail notice) (hrest : rest.Only mail) :
    (deliverTo isAllowed notice email rest).Only mail := by
  unfold deliverTo
  dsimp only
  split
  · exact hrest
  · exact ⟨hmail, hrest⟩

/-- What a mail has, it has behind the claims of the members' windows. -/
theorem claimMemberWindows_induct {P : Notification → Prop} {p : Notification} (h : P p)
    (hclaim : ∀ sensorId state rest, P rest → P (.claim (.member sensorId state) rest rest p)) :
    P (claimMemberWindows notice p) := by
  unfold claimMemberWindows
  induction shownMembers notice with
  | nil => exact h
  | cons m ms ih => exact hclaim m.sensorId m.effectiveState _ ih

/-- A notice about a member that got worse operates on the member's key only. -/
theorem only_notifyGates_member {change : MemberChange} {suppressed rest : Notification}
    (hmember : notice.memberChange = some change)
    (hworse : isWorsening change.previousState change.currentState = true) (hmail : mail notice)
    (hsuppressed : suppressed.Only mail) (hrest : rest.Only mail) :
    (notifyGates windowMinutes isAllowed notice suppressed rest).Only mail := by
  have hedge : notice.edge.2 = change.currentState := by
    unfold DashboardNotice.edge
    rw [hmember]
  have hkey : notice.key = .member change.sensorId change.currentState := by
    unfold DashboardNotice.key
    rw [hmember]
  unfold notifyGates
  cases notice.notifyEmail with
  | none => exact hrest
  | some email =>
    have hdeliver : (deliverTo isAllowed notice email rest).Only mail := only_deliverTo hmail hrest
    simp only [hedge, hkey, hmember, suppressible_of_worsening hworse, Bool.not_true, Bool.and_false,
      Bool.false_eq_true, if_false, Option.isNone_some]
    split
    · exact hrest
    · split
      · exact hrest
      · split
        · exact ⟨hdeliver, hsuppressed, hdeliver⟩
        · exact hdeliver

theorem only_notifyMembers {changes : List MemberChange}
    (hworse : ∀ change ∈ changes, isWorsening change.previousState change.currentState = true) :
    (notifyMembers windowMinutes isAllowed notice changes).Only
      fun n => n.memberChange.isNone = false := by
  unfold notifyMembers
  induction changes with
  | nil => trivial
  | cons change changes ih =>
    have hrest := ih fun other hother => hworse other (List.mem_cons_of_mem _ hother)
    exact only_notifyGates_member rfl (hworse change List.mem_cons_self) rfl hrest hrest

/-- The gates of an edge of the dashboard. -/
theorem program_eq (hmember : notice.memberChange = none) (hemail : notice.notifyEmail = some email)
    (hset : email ≠ "") :
    notifyDashboardTransition windowMinutes isAllowed notice =
      let mail := deliverTo isAllowed notice email .finished
      let won := claimMemberWindows notice mail
      let suppressible := suppressibleStates.contains notice.currentState
      let gated :=
        if !notice.reachesFloor then .finished
        else if 0 < windowMinutes && suppressible then
          .claim (.dashboard notice.currentState) won
            (notifyMembers windowMinutes isAllowed notice notice.memberChanges) won
        else mail
      if 0 < windowMinutes && !suppressible then .clear gated else gated := by
  have hedge : notice.edge = (notice.previousState, notice.currentState) := by
    unfold DashboardNotice.edge
    rw [hmember]
  have hkey : notice.key = .dashboard notice.currentState := by
    unfold DashboardNotice.key
    rw [hmember]
  unfold notifyDashboardTransition notifyGates
  simp only [hemail, if_neg hset, hedge, hkey, hmember, Option.isNone_none, if_true,
    DashboardNotice.reachesFloor]
  rfl

theorem emailSet_iff : notice.emailSet = true ↔ ∃ email, notice.notifyEmail = some email ∧ email ≠ "" := by
  unfold DashboardNotice.emailSet
  rw [Option.any_eq_true]
  simp only [decide_eq_true_eq]

/-- The dashboard is not configured to mail. -/
theorem program_unset (h : notice.emailSet = false) :
    notifyDashboardTransition windowMinutes isAllowed notice = .finished := by
  unfold notifyDashboardTransition notifyGates
  cases hemail : notice.notifyEmail with
  | none => rfl
  | some email =>
    have hempty : email = "" := by
      by_contra hset
      rw [emailSet_iff.mpr ⟨email, hemail, hset⟩] at h
      cases h
    exact if_pos hempty

theorem crossesInto_iff : notice.crossesInto state = true ↔
    notice.memberChange = none ∧ notice.currentState = state ∧ notice.emailSet = true ∧
      notice.reachesFloor = true := by
  unfold DashboardNotice.crossesInto
  simp only [Bool.and_eq_true, Option.isNone_iff_eq_none, decide_eq_true_eq, and_assoc]

/-- The tree behind the claim of a crossing. -/
def crossingMail (isAllowed : String → Bool) (notice : DashboardNotice) : Notification :=
  claimMemberWindows notice (deliverTo isAllowed notice (notice.notifyEmail.getD "") .finished)

/-- A crossing claims the key of its state first. -/
theorem program_crossing (hw : 0 < windowMinutes) (hstate : suppressibleStates.contains state = true)
    (h : notice.crossesInto state = true) :
    notifyDashboardTransition windowMinutes isAllowed notice =
      .claim (.dashboard state) (crossingMail isAllowed notice)
        (notifyMembers windowMinutes isAllowed notice notice.memberChanges)
        (crossingMail isAllowed notice) := by
  obtain ⟨hmember, rfl, hset, hfloor⟩ := crossesInto_iff.mp h
  obtain ⟨email, hemail, hne⟩ := emailSet_iff.mp hset
  rw [program_eq hmember hemail hne]
  simp only [hfloor, hstate, hw, decide_true, Bool.not_true, Bool.and_false, Bool.and_true,
    Bool.false_eq_true, if_false, if_true, crossingMail, hemail, Option.getD_some]

/-- The tree behind the clear of a recovery. -/
def recoveryMail (isAllowed : String → Bool) (notice : DashboardNotice) : Notification :=
  if notice.reachesFloor then
    deliverTo isAllowed notice (notice.notifyEmail.getD "") .finished else .finished

theorem recovers_iff : notice.recovers = true ↔
    notice.memberChange = none ∧ suppressibleStates.contains notice.currentState = false := by
  unfold DashboardNotice.recovers
  simp only [Bool.and_eq_true, Option.isNone_iff_eq_none, Bool.not_eq_true']

/-- A recovery clears the keys first, whatever its floor. -/
theorem program_recovery (h : notice.recovers = true) (hset : notice.emailSet = true) :
    notifyDashboardTransition windowMinutes isAllowed notice =
      if 0 < windowMinutes then .clear (recoveryMail isAllowed notice)
      else recoveryMail isAllowed notice := by
  obtain ⟨hmember, hgreen⟩ := recovers_iff.mp h
  obtain ⟨email, hemail, hne⟩ := emailSet_iff.mp hset
  rw [program_eq hmember hemail hne]
  simp only [hgreen, Bool.and_false, Bool.not_false, Bool.and_true, Bool.false_eq_true, if_false,
    decide_eq_true_eq, recoveryMail, hemail, Option.getD_some]
  cases notice.reachesFloor <;> rfl

theorem only_crossingMail (hmail : mail notice) : (crossingMail isAllowed notice).Only mail := by
  have hdeliver : (deliverTo isAllowed notice (notice.notifyEmail.getD "") .finished).Only mail :=
    only_deliverTo hmail trivial
  exact claimMemberWindows_induct hdeliver fun _ _ _ hrest => ⟨hrest, hrest, hdeliver⟩

theorem only_recoveryMail (hmail : mail notice) : (recoveryMail isAllowed notice).Only mail := by
  unfold recoveryMail
  split
  · exact only_deliverTo hmail trivial
  · trivial

/-- A mail that needs no window: about a member, or about an edge that no window is for. -/
def Plain (windowMinutes : Nat) (notice about : DashboardNotice) : Prop :=
  about.memberChange.isNone = true →
    about = notice ∧ (windowMinutes = 0 ∨ suppressibleStates.contains notice.currentState = false)

theorem plain_of_member {about : DashboardNotice} (h : about.memberChange.isNone = false) :
    Plain windowMinutes notice about := by
  intro hnone
  rw [h] at hnone
  cases hnone

/-- A task that touches no key of the dashboard sends plain mails only. -/
theorem program_plain (hworse : notice.Worsened)
    (h : ∀ state, suppressibleStates.contains state = true →
      notice.touches windowMinutes state = false) :
    (notifyDashboardTransition windowMinutes isAllowed notice).Only (Plain windowMinutes notice) := by
  have hriders : ∀ change ∈ notice.memberChanges,
      isWorsening change.previousState change.currentState = true :=
    fun change hchange => hworse change (List.mem_append_right _ hchange)
  cases hset : notice.emailSet with
  | false =>
    rw [program_unset hset]
    trivial
  | true =>
    cases hmember : notice.memberChange with
    | some change =>
      have hplain : Plain windowMinutes notice notice := plain_of_member (by rw [hmember]; rfl)
      exact only_notifyGates_member hmember
        (hworse change (List.mem_append_left _ (by rw [hmember]; exact List.mem_singleton_self _)))
        hplain ((only_notifyMembers hriders).mono fun _ => plain_of_member) trivial
    | none =>
      cases hgreen : suppressibleStates.contains notice.currentState with
      | false =>
        -- a recovery; the window is off, or its clear would be an operation
        have hrecovers := recovers_iff.mpr ⟨hmember, hgreen⟩
        rw [program_recovery hrecovers hset]
        have hoff : ¬ 0 < windowMinutes := by
          intro hw
          have htouches := h .critical rfl
          simp [DashboardNotice.touches, hw, hrecovers, hset] at htouches
        rw [if_neg hoff]
        exact only_recoveryMail fun _ => ⟨rfl, .inr hgreen⟩
      | true =>
        obtain ⟨email, hemail, hne⟩ := emailSet_iff.mp hset
        rw [program_eq hmember hemail hne]
        simp only [hgreen, Bool.not_true, Bool.and_false, Bool.false_eq_true, if_false, Bool.and_true]
        split
        · trivial
        · rename_i hfloor
          have hcrosses := crossesInto_iff.mpr ⟨hmember, rfl, hset, by simpa using hfloor⟩
          have hoff : ¬ 0 < windowMinutes := by
            intro hw
            have htouches := h notice.currentState hgreen
            simp [DashboardNotice.touches, hw, hcrosses] at htouches
          rw [if_neg (by simpa using hoff)]
          exact only_deliverTo (fun _ => ⟨rfl, .inl (Nat.eq_zero_of_not_pos hoff)⟩) trivial

theorem due_deliverTo (h : notice.delivers isAllowed = true) (rest : Notification) :
    (deliverTo isAllowed notice (notice.notifyEmail.getD "") rest).Due notice := by
  unfold DashboardNotice.delivers at h
  obtain ⟨email, hemail, hsome⟩ := Option.any_eq_true _ _ |>.mp h
  unfold deliverTo
  simp only [hemail, Option.getD_some]
  rw [if_neg (by simpa using hsome)]
  exact .inl rfl

theorem due_crossingMail (h : notice.delivers isAllowed = true) :
    (crossingMail isAllowed notice).Due notice :=
  claimMemberWindows_induct (due_deliverTo h _) fun _ _ _ hrest => ⟨hrest, hrest, due_deliverTo h _⟩

theorem due_recoveryMail (hfloor : notice.reachesFloor = true)
    (h : notice.delivers isAllowed = true) : (recoveryMail isAllowed notice).Due notice := by
  unfold recoveryMail
  rw [if_pos hfloor]
  exact due_deliverTo h _

/-- Without windows every crossing mails. -/
theorem due_program_off (hcrosses : notice.crossesInto state = true)
    (h : notice.delivers isAllowed = true) :
    (notifyDashboardTransition 0 isAllowed notice).Due notice := by
  obtain ⟨hmember, -, hset, hfloor⟩ := crossesInto_iff.mp hcrosses
  obtain ⟨email, hemail, hne⟩ := emailSet_iff.mp hset
  have hdue := due_deliverTo h .finished
  rw [hemail, Option.getD_some] at hdue
  rw [program_eq hmember hemail hne]
  simpa [hfloor] using hdue

/-- A recovery that reaches the floor mails. -/
theorem due_program_recovery (hrecovers : notice.recovers = true)
    (hfloor : notice.reachesFloor = true) (h : notice.delivers isAllowed = true) :
    (notifyDashboardTransition windowMinutes isAllowed notice).Due notice := by
  rw [program_recovery hrecovers (DashboardNotice.emailSet_of_delivers h)]
  split
  · exact due_recoveryMail hfloor h
  · exact due_recoveryMail hfloor h

theorem mails_deliverTo : (deliverTo isAllowed notice email .finished).mails ≤ 1 := by
  unfold deliverTo
  dsimp only
  split
  · exact Nat.zero_le 1
  · exact Bool.toNat_le _

theorem mails_crossingMail : (crossingMail isAllowed notice).mails ≤ 1 :=
  claimMemberWindows_induct mails_deliverTo fun _ _ _ hrest =>
    Nat.max_le.mpr ⟨hrest, Nat.max_le.mpr ⟨hrest, mails_deliverTo⟩⟩

/-- A task mails once about the dashboard at most. -/
theorem mails_program (hworse : notice.Worsened) :
    (notifyDashboardTransition windowMinutes isAllowed notice).mails ≤ 1 := by
  have hriders : (notifyMembers windowMinutes isAllowed notice notice.memberChanges).Only
      fun n => n.memberChange.isNone = false :=
    only_notifyMembers fun change hchange => hworse change (List.mem_append_right _ hchange)
  cases hset : notice.emailSet with
  | false =>
    rw [program_unset hset]
    exact Nat.zero_le 1
  | true =>
    cases hmember : notice.memberChange with
    | some change =>
      have hchange : change ∈ notice.memberChange.toList ++ notice.memberChanges := by
        rw [hmember]
        exact List.mem_cons_self
      -- a notice for one member writes to its riders, never to the dashboard
      have honly : (notifyDashboardTransition windowMinutes isAllowed notice).Only
          fun n => n.memberChange.isNone = false :=
        only_notifyGates_member hmember (hworse change hchange) (by rw [hmember]; rfl) hriders trivial
      rw [honly.mails_eq_zero]
      exact Nat.zero_le 1
    | none =>
      obtain ⟨email, hemail, hne⟩ := emailSet_iff.mp hset
      have hdeliver : (deliverTo isAllowed notice email .finished).mails ≤ 1 := mails_deliverTo
      have hwon : (crossingMail isAllowed notice).mails ≤ 1 := mails_crossingMail
      rw [crossingMail, hemail, Option.getD_some] at hwon
      -- one mail of the crossing, or none: the riders write their own notices
      have hgated (b : Bool) : (if !notice.reachesFloor then .finished
          else if b then
            .claim (.dashboard notice.currentState)
              (claimMemberWindows notice (deliverTo isAllowed notice email .finished))
              (notifyMembers windowMinutes isAllowed notice notice.memberChanges)
              (claimMemberWindows notice (deliverTo isAllowed notice email .finished))
          else deliverTo isAllowed notice email .finished).mails ≤ 1 := by
        split
        · exact Nat.zero_le 1
        · split
          · rw [Notification.mails, hriders.mails_eq_zero, Nat.zero_max, Nat.max_self]
            exact hwon
          · exact hdeliver
      rw [program_eq hmember hemail hne]
      dsimp only
      split
      · exact hgated _
      · exact hgated _

end Program

end Meho.Checks
