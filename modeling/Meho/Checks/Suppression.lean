import Meho.Checks.NoticePlan
import Meho.Lib.Cooldown
import Meho.Lib.Index

/- What the windows of a dashboard keep back.

The windows may keep back repeated crossings into a state. They must not keep back a
recovery, nor the first crossing into a state after a recovery. Each notice is handled
 by its own task, and a recovery is seen by the crossings after it only through the keys
it clears. If a crossing claims its key before the recovery before it has cleared, it
loses against the crossing before the recovery, and nothing mails.

`InOrder` is the condition that excludes this: on each key the tasks operate in the
order of their edges, the store answers them, and a recovery clears. -/
namespace Meho.Checks
open Meho.Lib

/-! ## The operations of one task -/

namespace NotifyEvent

/-- The task that an event is of. -/
def task : NotifyEvent → Nat
  | .claimed task _ _ _ => task
  | .cleared task => task
  | .attempted task _ => task

/-- The operation on the key of a state. -/
def onKey (state : CheckState) : NotifyEvent → Option (Nat × Cooldown.Op)
  | .claimed task key clock won =>
    if key = .dashboard state then some (task, .claim clock won) else none
  | .cleared task => some (task, .clear)
  | .attempted _ _ => none

/-- A mail about the dashboard. -/
def mailed : NotifyEvent → Bool
  | .attempted _ notice => notice.memberChange.isNone
  | _ => false

/-- No operation on a key of the dashboard, and a mail as `mail` says. -/
def Only (mail : DashboardNotice → Prop) : NotifyEvent → Prop
  | .claimed _ key _ _ => ∀ state, key ≠ .dashboard state
  | .cleared _ => False
  | .attempted _ notice => mail notice

theorem Only.onKey {mail : DashboardNotice → Prop} {e : NotifyEvent} (h : e.Only mail)
    (state : CheckState) : e.onKey state = none := by
  cases e with
  | claimed task key clock won => exact if_neg (h state)
  | cleared task => exact h.elim
  | attempted task notice => rfl

end NotifyEvent

namespace Notification

/-- One operation of task `k`: what is seen of it, and what is left to do. -/
inductive Step (k : Nat) : Notification → List NotifyEvent → Notification → Prop
  | finished : Step k .finished [] .finished
  | clear (rest : Notification) : Step k (.clear rest) [.cleared k] rest
  | clearFailed (rest : Notification) : Step k (.clear rest) [] rest
  | won (key : WindowKey) (won lost failed : Notification) (clock : Time) :
    Step k (.claim key won lost failed) [.claimed k key clock true] won
  | lost (key : WindowKey) (won lost failed : Notification) (clock : Time) :
    Step k (.claim key won lost failed) [.claimed k key clock false] lost
  | claimFailed (key : WindowKey) (won lost failed : Notification) :
    Step k (.claim key won lost failed) [] failed
  | deliver (notice : DashboardNotice) (recipients : List String) (rest : Notification) :
    Step k (.deliver notice recipients rest) [.attempted k notice] rest

/-- Operations of task `k` one after the other. -/
inductive Path (k : Nat) (p : Notification) : List NotifyEvent → Notification → Prop
  | refl : Path k p [] p
  | snoc {es es' : List NotifyEvent} {q r : Notification} (h : Path k p es q) (hstep : Step k q es' r) :
    Path k p (es ++ es') r

section Rules
variable {k : Nat} {p q : Notification} {es : List NotifyEvent} {mail : DashboardNotice → Prop}
variable {notice : DashboardNotice}

theorem Step.task (h : Step k p es q) : ∀ e ∈ es, e.task = k := by
  cases h with
  | finished | clearFailed rest | claimFailed key won lost failed => exact List.forall_mem_nil _
  | clear rest | deliver notice recipients rest => exact List.forall_mem_singleton.mpr rfl
  | won key won lost failed clock | lost key won lost failed clock =>
      exact List.forall_mem_singleton.mpr rfl

theorem member_ne_dashboard (sensorId : Nat) (own state : CheckState) :
    WindowKey.member sensorId own ≠ .dashboard state := by
  intro heq
  cases heq

theorem Only.step (h : p.Only mail) (hstep : Step k p es q) :
    q.Only mail ∧ ∀ e ∈ es, e.Only mail := by
  cases hstep with
  | finished => exact ⟨h, List.forall_mem_nil _⟩
  | clear rest | clearFailed rest => exact h.elim
  | won key won lost failed clock =>
    cases key with
    | dashboard state => exact h.elim
    | member sensorId state =>
      exact ⟨h.1, List.forall_mem_singleton.mpr (member_ne_dashboard sensorId state)⟩
  | lost key won lost failed clock =>
    cases key with
    | dashboard state => exact h.elim
    | member sensorId state =>
      exact ⟨h.2.1, List.forall_mem_singleton.mpr (member_ne_dashboard sensorId state)⟩
  | claimFailed key won lost failed =>
    cases key with
    | dashboard state => exact h.elim
    | member sensorId state => exact ⟨h.2.2, List.forall_mem_nil _⟩
  | deliver notice recipients rest => exact ⟨h.2, List.forall_mem_singleton.mpr h.1⟩

theorem Due.step (h : p.Due notice) (hstep : Step k p es q) :
    q.Due notice ∨ .attempted k notice ∈ es := by
  cases hstep with
  | finished | clear rest | clearFailed rest => exact .inl h
  | won key won lost failed clock => exact .inl h.1
  | lost key won lost failed clock => exact .inl h.2.1
  | claimFailed key won lost failed => exact .inl h.2.2
  | deliver about recipients rest =>
    rcases h with rfl | h
    · exact .inr List.mem_cons_self
    · exact .inl h

theorem mails_step (hstep : Step k p es q) : es.countP NotifyEvent.mailed + q.mails ≤ p.mails := by
  cases hstep with
  | finished => exact Nat.le_refl _
  | clear rest | clearFailed rest => exact Nat.le_of_eq (Nat.zero_add _)
  | won key won lost failed clock =>
    show 0 + q.mails ≤ max q.mails _
    omega
  | lost key won lost failed clock =>
    show 0 + q.mails ≤ max _ (max q.mails _)
    omega
  | claimFailed key won lost failed =>
    show 0 + q.mails ≤ max _ (max _ q.mails)
    omega
  | deliver about recipients rest =>
    refine Nat.add_le_add_right ?_ _
    rw [List.countP_singleton]
    cases hnone : about.memberChange.isNone <;> simp [NotifyEvent.mailed, hnone]

theorem length_step (hstep : Step k p es q) : q.length ≤ p.length - 1 := by
  cases hstep with
  | finished | clear rest | clearFailed rest | deliver notice recipients rest => exact Nat.le_refl _
  | won key won lost failed clock =>
    show q.length ≤ max q.length _
    omega
  | lost key won lost failed clock =>
    show q.length ≤ max _ (max q.length _)
    omega
  | claimFailed key won lost failed =>
    show q.length ≤ max _ (max _ q.length)
    omega

theorem Only.path (h : p.Only mail) (hpath : Path k p es q) :
    q.Only mail ∧ ∀ e ∈ es, e.Only mail := by
  induction hpath with
  | refl => exact ⟨h, List.forall_mem_nil _⟩
  | snoc hpath hstep ih =>
    obtain ⟨hrest, hevents⟩ := ih.1.step hstep
    exact ⟨hrest, List.forall_mem_append.mpr ⟨ih.2, hevents⟩⟩

theorem Due.path (h : p.Due notice) (hpath : Path k p es q) :
    q.Due notice ∨ .attempted k notice ∈ es := by
  induction hpath with
  | refl => exact .inl h
  | snoc hpath hstep ih =>
    rcases ih with hdue | hdone
    · rcases hdue.step hstep with hdue | hdone
      · exact .inl hdue
      · exact .inr (List.mem_append_right _ hdone)
    · exact .inr (List.mem_append_left _ hdone)

theorem mails_path (hpath : Path k p es q) : es.countP NotifyEvent.mailed + q.mails ≤ p.mails := by
  induction hpath with
  | refl => exact Nat.le_of_eq (Nat.zero_add _)
  | snoc hpath hstep ih =>
    have hlast := mails_step hstep
    rw [List.countP_append]
    omega

/-- A path with an operation before it. -/
theorem Path.cons {q' : Notification} {es' : List NotifyEvent} (hstep : Step k p es q)
    (hpath : Path k q es' q') : Path k p (es ++ es') q' := by
  induction hpath with
  | refl =>
    rw [List.append_nil]
    exact Path.refl.snoc hstep
  | snoc hpath hlast ih =>
    rw [← List.append_assoc]
    exact ih.snoc hlast

end Rules
end Notification

section Operate
variable {windowMinutes : Nat} {s : Notifier} {k : Nat} {answers : Bool} {p : Notification}
variable {state : CheckState}

theorem operate_step :
    p.Step k (operate windowMinutes s k answers p).2.2 (operate windowMinutes s k answers p).2.1 := by
  cases p with
  | finished => exact .finished
  | clear rest =>
    cases answers with
    | true => exact .clear rest
    | false => exact .clearFailed rest
  | claim key won lost failed =>
    cases answers with
    | false => exact .claimFailed key won lost failed
    | true =>
      unfold operate
      simp only [Bool.not_true, Bool.false_eq_true, if_false]
      split
      · exact .lost key won lost failed s.clock
      · exact .won key won lost failed s.clock
  | deliver notice recipients rest => exact .deliver notice recipients rest

theorem operate_other (h : p.asks state = false) :
    (operate windowMinutes s k answers p).1 (.dashboard state) = s.keys (.dashboard state) ∧
      (operate windowMinutes s k answers p).2.2.filterMap (NotifyEvent.onKey state) = [] := by
  cases p with
  | finished | deliver notice recipients rest => exact ⟨rfl, rfl⟩
  | clear rest => cases h
  | claim key won lost failed =>
    have hkey : key ≠ .dashboard state := of_decide_eq_false h
    have hnone (clock : Time) (won : Bool) :
        [NotifyEvent.claimed k key clock won].filterMap (NotifyEvent.onKey state) = [] := by
      rw [List.filterMap_cons, NotifyEvent.onKey, if_neg hkey]
      rfl
    simp only [operate]
    split
    · exact ⟨rfl, rfl⟩
    · split
      · exact ⟨rfl, hnone s.clock false⟩
      · exact ⟨Function.update_of_ne (Ne.symm hkey) _ _, hnone s.clock true⟩

/-- An operation on the key of a state is a claim or a clear. -/
theorem operate_asks (hstate : suppressibleStates.contains state = true) (h : p.asks state = true)
    {log : List (Nat × Cooldown.Op)}
    (hrun : Cooldown.Runs (seconds (windowMinutes * 60)) log (s.keys (.dashboard state)))
    (hk : ∀ x ∈ log, x.1 < k) :
    Cooldown.Runs (seconds (windowMinutes * 60))
      (log ++ (operate windowMinutes s k true p).2.2.filterMap (NotifyEvent.onKey state))
      ((operate windowMinutes s k true p).1 (.dashboard state)) := by
  cases p with
  | finished => cases h
  | clear rest =>
    have hcleared : clearedKeys s.keys (.dashboard state) = none := if_pos hstate
    show Cooldown.Runs _ (log ++ [(k, .clear)]) (clearedKeys s.keys (.dashboard state))
    rw [hcleared]
    exact hrun.clear hk
  | claim key won lost failed =>
    obtain rfl : key = .dashboard state := of_decide_eq_true h
    have hclaim := hrun.claim s.clock hk
    cases hpresent : s.present (.dashboard state) with
    | true =>
      have hheld : Cooldown.present (s.keys (.dashboard state)) s.clock = true := hpresent
      rw [hheld, Cooldown.afterClaim, if_pos hheld] at hclaim
      simpa [operate, hpresent, NotifyEvent.onKey] using hclaim
    | false =>
      have hfree : Cooldown.present (s.keys (.dashboard state)) s.clock = false := hpresent
      rw [hfree, Cooldown.afterClaim, if_neg (by rw [hfree]; exact Bool.false_ne_true)] at hclaim
      simpa [operate, hpresent, NotifyEvent.onKey] using hclaim
  | deliver notice recipients rest => cases h

end Operate

/-! ## How a task stands -/

section Task
variable {windowMinutes : Nat} {isAllowed : String → Bool} {k : Nat} {task : NotifyTask}
variable {notice : DashboardNotice} {state : CheckState} {es : List NotifyEvent}

theorem touches_iff : notice.touches windowMinutes state = true ↔
    0 < windowMinutes ∧
      (notice.crossesInto state = true ∨ notice.recovers = true ∧ notice.emailSet = true) := by
  unfold DashboardNotice.touches
  simp only [Bool.and_eq_true, Bool.or_eq_true, decide_eq_true_eq]

/-- A task claims the key of one state, clears the keys of all, or touches none. -/
theorem touch_kinds (windowMinutes : Nat) (notice : DashboardNotice) :
    (∃ state, suppressibleStates.contains state = true ∧ 0 < windowMinutes ∧
        notice.crossesInto state = true) ∨
      (0 < windowMinutes ∧ notice.recovers = true ∧ notice.emailSet = true) ∨
      ∀ state, suppressibleStates.contains state = true →
        notice.touches windowMinutes state = false := by
  by_cases h : ∃ state, suppressibleStates.contains state = true ∧
      notice.touches windowMinutes state = true
  · obtain ⟨state, hstate, htouches⟩ := h
    obtain ⟨hw, hcrosses | hrecovers⟩ := touches_iff.mp htouches
    · exact .inl ⟨state, hstate, hw, hcrosses⟩
    · exact .inr (.inl ⟨hw, hrecovers⟩)
  · refine .inr (.inr ?_)
    intro state hstate
    by_contra htouches
    exact h ⟨state, hstate, by simpa using htouches⟩

/-- The first operation of a task is on the keys that its notice touches. -/
theorem asks_program (hworse : notice.Worsened) (hstate : suppressibleStates.contains state = true) :
    (notifyDashboardTransition windowMinutes isAllowed notice).asks state =
      notice.touches windowMinutes state := by
  rcases touch_kinds windowMinutes notice with ⟨own, hown, hw, hcrosses⟩ | ⟨hw, hrecovers⟩ | hnone
  · rw [program_crossing hw hown hcrosses]
    obtain ⟨hmember, rfl, -, -⟩ := crossesInto_iff.mp hcrosses
    by_cases hsame : notice.currentState = state
    · subst hsame
      rw [touches_iff.mpr ⟨hw, .inl hcrosses⟩]
      exact decide_eq_true rfl
    · have hother : notice.touches windowMinutes state = false := by
        by_contra htouches
        obtain ⟨-, hinto | hrecovers⟩ := touches_iff.mp (by simpa using htouches)
        · exact hsame (crossesInto_iff.mp hinto).2.1
        · rw [(recovers_iff.mp hrecovers.1).2] at hown
          cases hown
      rw [hother]
      refine decide_eq_false ?_
      intro heq
      cases heq
      exact hsame rfl
  · rw [program_recovery hrecovers.1 hrecovers.2, if_pos hw, touches_iff.mpr ⟨hw, .inr hrecovers⟩]
    rfl
  · rw [hnone state hstate]
    exact (program_plain hworse hnone).asks state

theorem first_only (hworse : notice.Worsened) {p : Notification}
    (h : (notifyDashboardTransition windowMinutes isAllowed notice).Step k es p) :
    p.Only fun _ => True := by
  have hriders : (notifyMembers windowMinutes isAllowed notice notice.memberChanges).Only
      fun _ => True :=
    (only_notifyMembers fun change hchange => hworse change (List.mem_append_right _ hchange)).mono
      fun _ _ => trivial
  rcases touch_kinds windowMinutes notice with ⟨own, hown, hw, hcrosses⟩ | ⟨hw, hrecovers⟩ | hnone
  · rw [program_crossing hw hown hcrosses] at h
    cases h with
    | won key won lost failed clock | claimFailed key won lost failed =>
        exact only_crossingMail trivial
    | lost key won lost failed clock => exact hriders
  · rw [program_recovery hrecovers.1 hrecovers.2, if_pos hw] at h
    cases h with
    | clear rest | clearFailed rest => exact only_recoveryMail trivial
  · exact (((program_plain hworse hnone).step h).1).mono fun _ _ => trivial

/-- What a task has done: nothing, or an operation that was answered if it was on a key of the
dashboard, and others after it. -/
inductive Tracks (windowMinutes : Nat) (isAllowed : String → Bool) (k : Nat) (task : NotifyTask) :
    List NotifyEvent → Prop
  | fresh (hbegun : task.begun = false)
      (hprogram : task.program = notifyDashboardTransition windowMinutes isAllowed task.notice) :
    Tracks windowMinutes isAllowed k task []
  | begun {es es' : List NotifyEvent} {p : Notification} (hbegun : task.begun = true)
      (hfirst : (notifyDashboardTransition windowMinutes isAllowed task.notice).Step k es p)
      (hanswered : ∀ state, suppressibleStates.contains state = true →
        task.notice.touches windowMinutes state = true → es ≠ [])
      (hpath : p.Path k es' task.program) : Tracks windowMinutes isAllowed k task (es ++ es')

namespace Tracks

section
variable (h : Tracks windowMinutes isAllowed k task es)
include h

theorem path :
    (notifyDashboardTransition windowMinutes isAllowed task.notice).Path k es task.program := by
  cases h with
  | fresh hbegun hprogram =>
    rw [hprogram]
    exact .refl
  | begun hbegun hfirst hanswered hpath => exact hpath.cons hfirst

theorem program_of_fresh (hfresh : task.begun = false) :
    task.program = notifyDashboardTransition windowMinutes isAllowed task.notice := by
  cases h with
  | fresh hfresh' hprogram => exact hprogram
  | begun hbegun hfirst hanswered hpath =>
    rw [hfresh] at hbegun
    cases hbegun

theorem only (hworse : task.notice.Worsened) (hbegun : task.begun = true) :
    task.program.Only fun _ => True := by
  cases h with
  | fresh hfresh hprogram =>
    rw [hfresh] at hbegun
    cases hbegun
  | begun hbegun hfirst hanswered hpath => exact ((first_only hworse hfirst).path hpath).1

/-- A task that has begun a crossing has claimed, and goes on as the claim went. -/
theorem crossing (hw : 0 < windowMinutes) (hstate : suppressibleStates.contains state = true)
    (hcrosses : task.notice.crossesInto state = true) (hbegun : task.begun = true) :
    ∃ clock won es', es = .claimed k (.dashboard state) clock won :: es' ∧
      (if won then crossingMail isAllowed task.notice
        else notifyMembers windowMinutes isAllowed task.notice task.notice.memberChanges).Path
          k es' task.program := by
  cases h with
  | fresh hfresh hprogram =>
    rw [hfresh] at hbegun
    cases hbegun
  | begun hbegun hfirst hanswered hpath =>
    rw [program_crossing hw hstate hcrosses] at hfirst
    cases hfirst with
    | won key won lost failed clock => exact ⟨clock, true, _, rfl, hpath⟩
    | lost key won lost failed clock => exact ⟨clock, false, _, rfl, hpath⟩
    | claimFailed key won lost failed =>
      exact absurd rfl (hanswered state hstate (touches_iff.mpr ⟨hw, .inl hcrosses⟩))

theorem recovery (hw : 0 < windowMinutes) (hrecovers : task.notice.recovers = true)
    (hset : task.notice.emailSet = true) (hbegun : task.begun = true) :
    ∃ es', es = .cleared k :: es' ∧ (recoveryMail isAllowed task.notice).Path k es' task.program := by
  cases h with
  | fresh hfresh hprogram =>
    rw [hfresh] at hbegun
    cases hbegun
  | begun hbegun hfirst hanswered hpath =>
    rw [program_recovery hrecovers hset, if_pos hw] at hfirst
    cases hfirst with
    | clear rest => exact ⟨_, rfl, hpath⟩
    | clearFailed rest =>
      exact absurd rfl (hanswered .critical rfl (touches_iff.mpr ⟨hw, .inr ⟨hrecovers, hset⟩⟩))

theorem begun_of_mem {e : NotifyEvent} (he : e ∈ es) : task.begun = true := by
  cases h with
  | fresh hfresh hprogram => cases he
  | begun hbegun hfirst hanswered hpath => exact hbegun

end

/-- Only mails about members follow a claim that was lost. -/
theorem after_crossing (hworse : task.notice.Worsened) {won : Bool} {p : Notification}
    (hpath : (if won then crossingMail isAllowed task.notice
      else notifyMembers windowMinutes isAllowed task.notice task.notice.memberChanges).Path k es p) :
    ∀ e ∈ es, e.Only fun n => n.memberChange.isNone = true → won = true ∧ n = task.notice := by
  cases won with
  | true => exact ((only_crossingMail fun _ => ⟨rfl, rfl⟩).path hpath).2
  | false =>
    have hriders : (notifyMembers windowMinutes isAllowed task.notice task.notice.memberChanges).Only
        fun n => n.memberChange.isNone = false :=
      only_notifyMembers fun change hchange => hworse change (List.mem_append_right _ hchange)
    refine ((hriders.mono ?_).path hpath).2
    intro n hmember hnone
    rw [hmember] at hnone
    cases hnone

section
variable (h : Tracks windowMinutes isAllowed k task es) (hworse : task.notice.Worsened)
include h hworse

theorem onKey {e : NotifyEvent} (he : e ∈ es) {x : Nat × Cooldown.Op} (hx : e.onKey state = some x) :
    x.1 = k ∧ task.notice.touches windowMinutes state = true ∧
      ((∃ clock won, x.2 = .claim clock won) ∧ task.notice.crossesInto state = true ∨
        x.2 = .clear ∧ task.notice.recovers = true) := by
  have hbegun := h.begun_of_mem he
  have hnot {mail : DashboardNotice → Prop} (honly : e.Only mail) : False := by
    rw [honly.onKey state] at hx
    cases hx
  rcases touch_kinds windowMinutes task.notice with
    ⟨own, hown, hw, hcrosses⟩ | ⟨hw, hrecovers, hset⟩ | hnone
  · obtain ⟨clock, won, es', rfl, hpath⟩ := h.crossing hw hown hcrosses hbegun
    rcases List.mem_cons.mp he with rfl | he
    · simp only [NotifyEvent.onKey] at hx
      split at hx
      · rename_i hkey
        cases hkey
        cases hx
        exact ⟨rfl, touches_iff.mpr ⟨hw, .inl hcrosses⟩, .inl ⟨⟨clock, won, rfl⟩, hcrosses⟩⟩
      · cases hx
    · exact (hnot (after_crossing hworse hpath e he)).elim
  · obtain ⟨es', rfl, hpath⟩ := h.recovery hw hrecovers hset hbegun
    rcases List.mem_cons.mp he with rfl | he
    · cases hx
      exact ⟨rfl, touches_iff.mpr ⟨hw, .inr ⟨hrecovers, hset⟩⟩, .inr ⟨rfl, hrecovers⟩⟩
    · have hmail : (recoveryMail isAllowed task.notice).Only fun _ => True := only_recoveryMail trivial
      exact (hnot ((hmail.path hpath).2 e he)).elim
  · exact (hnot (((program_plain hworse hnone).path h.path).2 e he)).elim

theorem backed (hw : 0 < windowMinutes) {about : DashboardNotice}
    (hmember : about.memberChange.isNone = true)
    (hstate : suppressibleStates.contains about.currentState = true) (he : .attempted k about ∈ es) :
    ∃ clock, .claimed k (.dashboard about.currentState) clock true ∈ es := by
  have hbegun := h.begun_of_mem he
  rcases touch_kinds windowMinutes task.notice with
    ⟨own, hown, -, hcrosses⟩ | ⟨-, hrecovers, hset⟩ | hnone
  · obtain ⟨clock, won, es', rfl, hpath⟩ := h.crossing hw hown hcrosses hbegun
    rcases List.mem_cons.mp he with heq | he
    · cases heq
    · obtain ⟨rfl, rfl⟩ := after_crossing hworse hpath _ he hmember
      obtain ⟨-, rfl, -, -⟩ := crossesInto_iff.mp hcrosses
      exact ⟨clock, List.mem_cons_self⟩
  · obtain ⟨es', rfl, hpath⟩ := h.recovery hw hrecovers hset hbegun
    rcases List.mem_cons.mp he with heq | he
    · cases heq
    · have hmail : (recoveryMail isAllowed task.notice).Only (· = task.notice) :=
        only_recoveryMail rfl
      obtain rfl : about = task.notice := (hmail.path hpath).2 _ he
      rw [(recovers_iff.mp hrecovers).2] at hstate
      cases hstate
  · have hplain : Plain windowMinutes task.notice about :=
      ((program_plain hworse hnone).path h.path).2 _ he
    obtain ⟨rfl, hoff | hgreen⟩ := hplain hmember
    · exact absurd hw (Nat.not_lt.mpr (Nat.le_of_eq hoff))
    · rw [hgreen] at hstate
      cases hstate

end

/-- What is due has been mailed when the task is finished. -/
theorem attempted_of_due {p : Notification} (hdue : p.Due notice)
    (hpath : p.Path k es .finished) : .attempted k notice ∈ es := by
  rcases hdue.path hpath with hmore | hdone
  · exact hmore.elim
  · exact hdone

end Tracks
end Task

/-! ## Runs -/

/-- The condition on the steps of a run: the members of a notice got worse and a recovery is
configured to mail; the first operation of a task is answered if it is on a key of the dashboard,
and the earlier tasks that operate on the key have begun. -/
def InOrder (windowMinutes : Nat) (c : Config Notifier NotifyEvent) : NotifyAct → Prop
  | .edge notice => notice.Worsened ∧ (notice.recovers = true → notice.emailSet = true)
  | .step k answers =>
    ∀ task ∈ c.state.tasks[k]?, task.begun = false →
      ∀ state ∈ suppressibleStates, task.notice.touches windowMinutes state = true →
        answers = true ∧ ∀ earlier ∈ c.state.tasks.take k,
          earlier.notice.touches windowMinutes state = true → earlier.begun = true
  | .wait _ => True

/-- What every run in order keeps. -/
structure Orderly (windowMinutes : Nat) (isAllowed : String → Bool) (c : Config Notifier NotifyEvent) :
    Prop where
  worsened : ∀ task ∈ c.state.tasks, task.notice.Worsened
  configured : ∀ task ∈ c.state.tasks, task.notice.recovers = true → task.notice.emailSet = true
  tracks : ∀ k task, c.state.tasks[k]? = some task →
    Tracks windowMinutes isAllowed k task (c.events.filter (·.task = k))
  known : ∀ e ∈ c.events, e.task < c.state.tasks.length
  order : ∀ (i j : Nat) (ti tj : NotifyTask), i < j → c.state.tasks[i]? = some ti →
    c.state.tasks[j]? = some tj → tj.begun = true →
      ∀ state ∈ suppressibleStates, ti.notice.touches windowMinutes state = true →
      tj.notice.touches windowMinutes state = true → ti.begun = true
  runs : ∀ state ∈ suppressibleStates, Cooldown.Runs (seconds (windowMinutes * 60))
    (c.events.filterMap (NotifyEvent.onKey state)) (c.state.keys (.dashboard state))

section Runs
variable {windowMinutes : Nat} {isAllowed : String → Bool} {s : Notifier} {events : List NotifyEvent}
variable {state : CheckState}

theorem operate_answered {k : Nat} {p : Notification} (h : p.asks state = true) :
    (operate windowMinutes s k true p).2.2 ≠ [] := by
  cases p with
  | finished => cases h
  | clear rest => exact List.cons_ne_nil _ _
  | claim key won lost failed =>
    simp only [operate, Bool.not_true, Bool.false_eq_true, if_false]
    split
    · exact List.cons_ne_nil _ _
    · exact List.cons_ne_nil _ _
  | deliver notice recipients rest => cases h

/-- An operation on the key of a state is of a task that has begun and touches the key. -/
theorem Orderly.owner (h : Orderly windowMinutes isAllowed ⟨s, events⟩) {x : Nat × Cooldown.Op}
    (hx : x ∈ events.filterMap (NotifyEvent.onKey state)) :
    ∃ task, s.tasks[x.1]? = some task ∧ task.begun = true ∧
      task.notice.touches windowMinutes state = true ∧
      ((∃ clock won, x.2 = .claim clock won) ∧ task.notice.crossesInto state = true ∨
        x.2 = .clear ∧ task.notice.recovers = true) := by
  obtain ⟨e, he, hop⟩ := List.mem_filterMap.mp hx
  obtain ⟨task, htask⟩ : ∃ task, s.tasks[e.task]? = some task :=
    ⟨_, List.getElem?_eq_getElem (h.known e he)⟩
  have htracks := h.tracks e.task task htask
  have hmem : e ∈ events.filter (·.task = e.task) :=
    List.mem_filter.mpr ⟨he, decide_eq_true rfl⟩
  have hworse := h.worsened _ (List.mem_of_getElem? htask)
  obtain ⟨hk, htouches, hkind⟩ := htracks.onKey hworse hmem hop
  rw [hk]
  exact ⟨_, htask, htracks.begun_of_mem hmem, htouches, hkind⟩

/-- A new edge: its task has not begun. -/
theorem Orderly.edge (h : Orderly windowMinutes isAllowed ⟨s, events⟩) {notice : DashboardNotice}
    (hworse : notice.Worsened) (hset : notice.recovers = true → notice.emailSet = true) :
    Orderly windowMinutes isAllowed
      ⟨{ s with tasks := s.tasks ++
          [⟨notice, notifyDashboardTransition windowMinutes isAllowed notice, false⟩] },
        events ++ []⟩ := by
  have hknown : ∀ e ∈ events, e.task < s.tasks.length := h.known
  rw [List.append_nil]
  refine ⟨?_, ?_, ?_, ?_, ?_, h.runs⟩
  · exact List.forall_mem_append.mpr ⟨h.worsened, List.forall_mem_singleton.mpr hworse⟩
  · exact List.forall_mem_append.mpr ⟨h.configured, List.forall_mem_singleton.mpr hset⟩
  · intro k task hk
    rcases getElem?_snoc hk with hk | ⟨rfl, rfl⟩
    · exact h.tracks k task hk
    · have hnone : events.filter (·.task = s.tasks.length) = [] := by
        refine List.filter_eq_nil_iff.mpr ?_
        intro e he heq
        exact Nat.ne_of_lt (hknown e he) (of_decide_eq_true heq)
      dsimp only
      rw [hnone]
      exact .fresh rfl rfl
  · intro e he
    have hlt := hknown e he
    show e.task < (s.tasks ++ [_]).length
    rw [List.length_append]
    omega
  · intro i j ti tj hij hi hj hbegun state hstate hti htj
    rcases getElem?_snoc hj with hj | ⟨rfl, rfl⟩
    · rcases getElem?_snoc hi with hi | ⟨rfl, rfl⟩
      · exact h.order i j ti tj hij hi hj hbegun state hstate hti htj
      · have hlt : j < s.tasks.length := (List.getElem?_eq_some_iff.mp hj).1
        exact absurd hij (Nat.lt_asymm hlt)
    · cases hbegun

section Operation
variable {k : Nat} {answers : Bool} {task : NotifyTask}

section
variable (h : Orderly windowMinutes isAllowed ⟨s, events⟩) (htask : s.tasks[k]? = some task)
include h htask

theorem Orderly.owner_lt (hfresh : task.begun = false) (hstate : state ∈ suppressibleStates)
    (htouches : task.notice.touches windowMinutes state = true) :
    ∀ x ∈ events.filterMap (NotifyEvent.onKey state), x.1 < k := by
  intro x hx
  obtain ⟨other, hother, hbegun, hshares, -⟩ := h.owner hx
  rcases Nat.lt_trichotomy x.1 k with hlt | rfl | hgt
  · exact hlt
  · rw [htask] at hother
    cases hother
    rw [hfresh] at hbegun
    cases hbegun
  · -- a later task has begun, so this one has
    have hearlier := h.order k x.1 task other hgt htask hother hbegun state hstate htouches hshares
    rw [hfresh] at hearlier
    cases hearlier

section
variable (hfirst : InOrder windowMinutes ⟨s, events⟩ (.step k answers))
include hfirst

theorem Orderly.keys (hstate : state ∈ suppressibleStates) :
    Cooldown.Runs (seconds (windowMinutes * 60))
      ((events ++ (operate windowMinutes s k answers task.program).2.2).filterMap
        (NotifyEvent.onKey state))
      ((operate windowMinutes s k answers task.program).1 (.dashboard state)) := by
  have hworse := h.worsened task (List.mem_of_getElem? htask)
  have hsupp : suppressibleStates.contains state = true := List.contains_iff_mem.mpr hstate
  have hrun := h.runs state hstate
  have hother (hasks : task.program.asks state = false) :
      Cooldown.Runs (seconds (windowMinutes * 60))
        ((events ++ (operate windowMinutes s k answers task.program).2.2).filterMap
          (NotifyEvent.onKey state))
        ((operate windowMinutes s k answers task.program).1 (.dashboard state)) := by
    obtain ⟨hkey, hnone⟩ := operate_other hasks
    rw [List.filterMap_append, hnone, List.append_nil, hkey]
    exact hrun
  cases hbegun : task.begun with
  | true => exact hother (((h.tracks k task htask).only hworse hbegun).asks state)
  | false =>
    have hprogram : task.program = notifyDashboardTransition windowMinutes isAllowed task.notice :=
      (h.tracks k task htask).program_of_fresh hbegun
    have hasks : task.program.asks state = task.notice.touches windowMinutes state := by
      rw [hprogram]
      exact asks_program hworse hsupp
    cases htouches : task.notice.touches windowMinutes state with
    | false => exact hother (hasks.trans htouches)
    | true =>
      obtain ⟨rfl, -⟩ := hfirst task htask hbegun state hstate htouches
      rw [List.filterMap_append]
      exact operate_asks hsupp (hasks.trans htouches) hrun
        (h.owner_lt htask hbegun hstate htouches)

theorem Orderly.tracked :
    Tracks windowMinutes isAllowed k
      ⟨task.notice, (operate windowMinutes s k answers task.program).2.1, true⟩
      ((events ++ (operate windowMinutes s k answers task.program).2.2).filter (·.task = k)) := by
  have hown : (operate windowMinutes s k answers task.program).2.2.filter (·.task = k) =
      (operate windowMinutes s k answers task.program).2.2 :=
    List.filter_eq_self.mpr fun e he => decide_eq_true (operate_step.task e he)
  rw [List.filter_append, hown]
  have htracks := h.tracks k task htask
  dsimp only at htracks
  generalize events.filter (·.task = k) = es at htracks
  cases htracks with
  | fresh hfresh hprogram =>
    rw [List.nil_append, ← List.append_nil (operate windowMinutes s k answers task.program).2.2]
    refine .begun rfl (hprogram ▸ operate_step) ?_ .refl
    intro state hsupp htouches
    have hstate : state ∈ suppressibleStates := List.contains_iff_mem.mp hsupp
    obtain ⟨rfl, -⟩ := hfirst task htask hfresh state hstate htouches
    have hasks : task.program.asks state = true := by
      rw [hprogram, asks_program (h.worsened task (List.mem_of_getElem? htask)) hsupp]
      exact htouches
    exact operate_answered hasks
  | begun hbegun hstep hanswered hpath =>
    rw [List.append_assoc]
    exact .begun rfl hstep hanswered (hpath.snoc operate_step)

theorem Orderly.operate :
    Orderly windowMinutes isAllowed
      ⟨{ s with
          keys := (operate windowMinutes s k answers task.program).1
          tasks := s.tasks.set k
            ⟨task.notice, (operate windowMinutes s k answers task.program).2.1, true⟩ },
        events ++ (operate windowMinutes s k answers task.program).2.2⟩ := by
  have hmem : task ∈ s.tasks := List.mem_of_getElem? htask
  have hlt : k < s.tasks.length := (List.getElem?_eq_some_iff.mp htask).1
  refine ⟨?_, ?_, ?_, ?_, ?_, fun state hstate => h.keys htask hfirst hstate⟩
  · intro other hother
    rcases List.mem_or_eq_of_mem_set hother with hother | rfl
    · exact h.worsened other hother
    · exact h.worsened task hmem
  · intro other hother
    rcases List.mem_or_eq_of_mem_set hother with hother | rfl
    · exact h.configured other hother
    · exact h.configured task hmem
  · intro i other hi
    rcases getElem?_set_cases hi with ⟨rfl, rfl⟩ | ⟨hne, hold⟩
    · exact h.tracked htask hfirst
    -- the operation is of task `k` alone, so the tracks of the others stay
    · have hnone : (Checks.operate windowMinutes s k answers task.program).2.2.filter
          (·.task = i) = [] := by
        refine List.filter_eq_nil_iff.mpr ?_
        intro e he heq
        exact hne ((of_decide_eq_true heq).symm.trans (operate_step.task e he))
      dsimp only
      rw [List.filter_append, hnone, List.append_nil]
      exact h.tracks i other hold
  · intro e he
    show e.task < (s.tasks.set k _).length
    rw [List.length_set]
    rcases List.mem_append.mp he with he | he
    · exact h.known e he
    · rw [operate_step.task e he]
      exact hlt
  · intro i j ti tj hij hi hj hbegun state hstate hti htj
    rcases getElem?_set_cases hi with ⟨-, rfl⟩ | ⟨-, hiold⟩
    · rfl
    · rcases getElem?_set_cases hj with ⟨rfl, rfl⟩ | ⟨-, hjold⟩
      · cases hold : task.begun with
        | true => exact h.order i _ ti task hij hiold htask hold state hstate hti htj
        | false =>
          -- a task that begins now is behind every earlier one of its state
          have hearlier := (hfirst task htask hold state hstate htj).2
          obtain ⟨hilt, hget⟩ := List.getElem?_eq_some_iff.mp hiold
          refine hearlier ti ?_ hti
          exact List.mem_take_iff_getElem.mpr ⟨i, Nat.lt_min.mpr ⟨hij, hilt⟩, hget⟩
      · exact h.order i j ti tj hij hiold hjold hbegun state hstate hti htj

end

end

end Operation

theorem Orderly.start (windowMinutes : Nat) (isAllowed : String → Bool) (clock : Time) :
    Orderly windowMinutes isAllowed (notifierMachine windowMinutes isAllowed clock).begin_ where
  worsened := List.forall_mem_nil _
  configured := List.forall_mem_nil _
  tracks := by
    intro k task htask
    cases htask
  known := List.forall_mem_nil _
  order := by
    intro i j ti tj hij hi
    cases hi
  runs := fun _ _ => .nil

theorem Orderly.step {c : Config Notifier NotifyEvent} {a : NotifyAct} {clock : Time}
    (h : Orderly windowMinutes isAllowed c) (hin : InOrder windowMinutes c a) :
    Orderly windowMinutes isAllowed ((notifierMachine windowMinutes isAllowed clock).next c a) := by
  obtain ⟨s, events⟩ := c
  cases a with
  | edge notice => exact h.edge hin.1 hin.2
  | step k answers =>
    simp only [Machine.next, notifierMachine, notifierStep]
    cases htask : s.tasks[k]? with
    | none =>
      dsimp only
      rw [List.append_nil]
      exact h
    | some task => exact h.operate htask hin
  | wait d =>
    simp only [Machine.next, notifierMachine, notifierStep]
    rw [List.append_nil]
    exact ⟨h.worsened, h.configured, h.tracks, h.known, h.order, h.runs⟩

end Runs

/-! ## What is mailed -/

section Mailed
variable (windowMinutes : Nat) (isAllowed : String → Bool) (c : Config Notifier NotifyEvent)

/-- One mail for each edge of the dashboard, and one for each state and window between two
recoveries. A window is counted from the claim that was won for the mail. -/
def OncePerWindow : Prop :=
  (∀ k, c.events.countP (fun e => e.mailed && e.task = k) ≤ 1) ∧
    ∀ (i j : Nat) (about about' : DashboardNotice), 0 < windowMinutes → i < j →
      .attempted i about ∈ c.events → .attempted j about' ∈ c.events →
      about.memberChange.isNone = true → about'.memberChange.isNone = true →
      about'.currentState = about.currentState → about.currentState ∈ suppressibleStates →
      ∃ t t', .claimed i (.dashboard about.currentState) t true ∈ c.events ∧
        .claimed j (.dashboard about.currentState) t' true ∈ c.events ∧
        (t + seconds (windowMinutes * 60) ≤ t' ∨
          ∃ r task, i < r ∧ r < j ∧ c.state.tasks[r]? = some task ∧ task.notice.recovers = true)

/-- A recovery that reaches the floor is mailed when its task is finished. -/
def RecoveriesMail : Prop :=
  ∀ (r : Nat) (task : NotifyTask), c.state.tasks[r]? = some task → task.program = .finished →
    task.notice.recovers = true → task.notice.reachesFloor = true →
    task.notice.delivers isAllowed = true → .attempted r task.notice ∈ c.events

/-- The first crossing into a state after a recovery is mailed when its task is finished. -/
def FirstCrossingsMail : Prop :=
  ∀ (r j : Nat) (recovery crossing : NotifyTask) (state : CheckState), r < j →
    c.state.tasks[r]? = some recovery → c.state.tasks[j]? = some crossing →
    recovery.notice.recovers = true → state ∈ suppressibleStates →
    crossing.notice.crossesInto state = true → crossing.notice.delivers isAllowed = true →
    (∀ (i : Nat) (task : NotifyTask), r < i → i < j → c.state.tasks[i]? = some task →
      task.notice.crossesInto state = false) →
    crossing.program = .finished → .attempted j crossing.notice ∈ c.events

variable {windowMinutes isAllowed c}

/-- The events of a task are those of its number. -/
theorem mem_own {e : NotifyEvent} (he : e ∈ c.events) :
    e ∈ c.events.filter (·.task = e.task) :=
  List.mem_filter.mpr ⟨he, decide_eq_true rfl⟩

theorem Orderly.taskOf (h : Orderly windowMinutes isAllowed c) {e : NotifyEvent}
    (he : e ∈ c.events) :
    ∃ task, c.state.tasks[e.task]? = some task ∧ task.notice.Worsened ∧
      Tracks windowMinutes isAllowed e.task task (c.events.filter (·.task = e.task)) := by
  obtain ⟨task, htask⟩ : ∃ task, c.state.tasks[e.task]? = some task :=
    ⟨_, List.getElem?_eq_getElem (h.known e he)⟩
  exact ⟨task, htask, h.worsened task (List.mem_of_getElem? htask), h.tracks e.task task htask⟩

/-- A mail about a crossing has won the window. -/
theorem Orderly.won (h : Orderly windowMinutes isAllowed c) (hw : 0 < windowMinutes) {k : Nat}
    {about : DashboardNotice} (he : .attempted k about ∈ c.events)
    (hmember : about.memberChange.isNone = true) (hstate : about.currentState ∈ suppressibleStates) :
    ∃ t, .claimed k (.dashboard about.currentState) t true ∈ c.events := by
  obtain ⟨task, htask, hworse, htracks⟩ := h.taskOf he
  obtain ⟨t, hclaimed⟩ := htracks.backed hworse hw hmember (List.contains_iff_mem.mpr hstate)
    (mem_own he)
  exact ⟨t, List.mem_of_mem_filter hclaimed⟩

theorem mem_log {e : NotifyEvent} {state : CheckState} {x : Nat × Cooldown.Op} (he : e ∈ c.events)
    (hx : e.onKey state = some x) : x ∈ c.events.filterMap (NotifyEvent.onKey state) :=
  List.mem_filterMap.mpr ⟨e, he, hx⟩

section
variable (h : Orderly windowMinutes isAllowed c)
include h

theorem Orderly.oncePerWindow : OncePerWindow windowMinutes c := by
  constructor
  · intro k
    rw [← List.countP_filter]
    cases htask : c.state.tasks[k]? with
    | none =>
      have hnone : c.events.filter (·.task = k) = [] := by
        refine List.filter_eq_nil_iff.mpr ?_
        intro e he heq
        have hlt := h.known e he
        rw [of_decide_eq_true heq] at hlt
        exact absurd hlt (Nat.not_lt.mpr (List.getElem?_eq_none_iff.mp htask))
      rw [hnone]
      exact Nat.zero_le 1
    | some task =>
      have hpath := Notification.mails_path (h.tracks k task htask).path
      have hprogram : (notifyDashboardTransition windowMinutes isAllowed task.notice).mails ≤ 1 :=
        mails_program (h.worsened task (List.mem_of_getElem? htask))
      omega
  · intro i j about about' hw hij hi hj hmember hmember' hsame hstate
    obtain ⟨t, ht⟩ := h.won hw hi hmember hstate
    obtain ⟨t', ht'⟩ := h.won hw hj hmember' (hsame ▸ hstate)
    rw [hsame] at ht'
    refine ⟨t, t', ht, ht', ?_⟩
    have hwindow : (0 : Int) ≤ (windowMinutes : Int) * 60 * 1000000 := by omega
    have hop := mem_log ht (if_pos rfl)
    have hop' := mem_log ht' (if_pos rfl)
    rcases Cooldown.spaced hwindow (h.runs _ hstate) hop hop' hij with ⟨r, hir, hrj, hclear⟩ | hle
    · obtain ⟨task, htask, -, -, ⟨⟨_, _, hclaim⟩, -⟩ | ⟨-, hrecovers⟩⟩ := h.owner hclear
      · cases hclaim
      · exact .inr ⟨r, task, hir, hrj, htask, hrecovers⟩
    · exact .inl hle

theorem Orderly.recoveriesMail : RecoveriesMail isAllowed c := by
  intro r task htask hfinished hrecovers hfloor hdelivers
  have hpath := (h.tracks r task htask).path
  rw [hfinished] at hpath
  have hdone := Tracks.attempted_of_due (due_program_recovery hrecovers hfloor hdelivers) hpath
  exact List.mem_of_mem_filter hdone

theorem Orderly.firstCrossingsMail : FirstCrossingsMail isAllowed c := by
  intro r j recovery crossing state hrj hr hj hrecovers hstate hcrosses hdelivers hfirst hfinished
  have hsupp : suppressibleStates.contains state = true := List.contains_iff_mem.mpr hstate
  have htracks := h.tracks j crossing hj
  rcases Nat.eq_zero_or_pos windowMinutes with rfl | hw
  · have hpath := htracks.path
    rw [hfinished] at hpath
    exact List.mem_of_mem_filter
      (Tracks.attempted_of_due (due_program_off hcrosses hdelivers) hpath)
  · -- the crossing has claimed, and before it the recovery has cleared
    have hbegun : crossing.begun = true := by
      by_contra hfresh
      have hprogram := htracks.program_of_fresh (by simpa using hfresh)
      rw [hfinished, program_crossing hw hsupp hcrosses] at hprogram
      cases hprogram
    have hset := h.configured recovery (List.mem_of_getElem? hr) hrecovers
    have hrbegun : recovery.begun = true :=
      h.order r j recovery crossing hrj hr hj hbegun state hstate
        (touches_iff.mpr ⟨hw, .inr ⟨hrecovers, hset⟩⟩) (touches_iff.mpr ⟨hw, .inl hcrosses⟩)
    obtain ⟨clock, won, es', hes, hpath⟩ := htracks.crossing hw hsupp hcrosses hbegun
    obtain ⟨es'', hes'', -⟩ := (h.tracks r recovery hr).recovery hw hrecovers hset hrbegun
    have hclaimed : .claimed j (.dashboard state) clock won ∈ c.events :=
      List.mem_of_mem_filter (hes ▸ List.mem_cons_self)
    have hcleared : .cleared r ∈ c.events := List.mem_of_mem_filter (hes'' ▸ List.mem_cons_self)
    have hwon : won = true := by
      refine Cooldown.wins_after_clear (h.runs state hstate) (mem_log hcleared rfl)
        (mem_log hclaimed (if_pos rfl)) hrj ?_
      intro i t won' hri hij hmem
      obtain ⟨task, htask, -, -, ⟨-, hinto⟩ | ⟨hclear, -⟩⟩ := h.owner hmem
      · rw [hfirst i task hri hij htask] at hinto
        cases hinto
      · cases hclear
    rw [hwon, if_pos rfl, hfinished] at hpath
    have hdone := Tracks.attempted_of_due (due_crossingMail hdelivers) hpath
    exact List.mem_of_mem_filter (hes ▸ List.mem_cons_of_mem _ hdone)

end

end Mailed

/-! ## Progress -/

section Progress
variable {windowMinutes : Nat} {isAllowed : String → Bool} {clock : Time} {k : Nat}

/-- An action is a step of task `k`. -/
def NotifyAct.isStepOf (k : Nat) : NotifyAct → Bool
  | .step j _ => j = k
  | _ => false

theorem Notification.eq_finished_of_length {p : Notification} (h : p.length = 0) :
    p = .finished := by
  cases p with
  | finished => rfl
  | clear rest => cases h
  | claim key won lost failed => cases h
  | deliver notice recipients rest => cases h

section
variable {c : Config Notifier NotifyEvent} {task : NotifyTask} (h : c.state.tasks[k]? = some task)
include h

theorem task_step (a : NotifyAct) :
    ∃ task', ((notifierMachine windowMinutes isAllowed clock).next c a).state.tasks[k]? = some task' ∧
      task'.notice = task.notice ∧
      task'.program.length ≤ task.program.length - (a.isStepOf k).toNat := by
  have hlt : k < c.state.tasks.length := (List.getElem?_eq_some_iff.mp h).1
  cases a with
  | edge notice => exact ⟨task, (List.getElem?_append_left hlt).trans h, rfl, Nat.le_refl _⟩
  | step j answers =>
    simp only [Machine.next_state, notifierMachine, notifierStep]
    by_cases hjk : j = k
    · subst hjk
      rw [h]
      refine ⟨_, List.getElem?_set_self hlt, rfl, ?_⟩
      have hshorter : (operate windowMinutes c.state j answers task.program).2.1.length ≤
          task.program.length - 1 := Notification.length_step operate_step
      simpa [NotifyAct.isStepOf] using hshorter
    · have hother : NotifyAct.isStepOf k (.step j answers) = false := decide_eq_false hjk
      rw [hother]
      cases c.state.tasks[j]? with
      | none => exact ⟨task, h, rfl, Nat.le_refl _⟩
      | some other => exact ⟨task, (List.getElem?_set_ne hjk).trans h, rfl, Nat.le_refl _⟩
  | wait d => exact ⟨task, h, rfl, Nat.le_refl _⟩

theorem task_finishes (acts : List NotifyAct)
    (hacts : task.program.length ≤ acts.countP (NotifyAct.isStepOf k)) :
    ∃ task', ((notifierMachine windowMinutes isAllowed clock).run c acts).state.tasks[k]? = some task' ∧
      task'.notice = task.notice ∧ task'.program = .finished := by
  induction acts generalizing c task with
  | nil => exact ⟨task, h, rfl, Notification.eq_finished_of_length (Nat.le_zero.mp hacts)⟩
  | cons a acts ih =>
    obtain ⟨task', htask', hnotice, hshorter⟩ : ∃ task',
        ((notifierMachine windowMinutes isAllowed clock).next c a).state.tasks[k]? = some task' ∧
          task'.notice = task.notice ∧
          task'.program.length ≤ task.program.length - (a.isStepOf k).toNat := task_step h a
    have hrest : task'.program.length ≤ acts.countP (NotifyAct.isStepOf k) := by
      rw [List.countP_cons] at hacts
      cases hstep : a.isStepOf k <;> simp only [hstep, Bool.toNat_true, Bool.toNat_false,
        if_true, Bool.false_eq_true, if_false] at hacts hshorter <;> omega
    obtain ⟨last, hlast, hsame, hfinished⟩ := ih htask' hrest
    exact ⟨last, hlast, hsame.trans hnotice, hfinished⟩

end

end Progress

/-- **Suppression hides no first alarm and no recovery, if the tasks operate in order.** In every run
 in which the tasks operate on each key of the dashboard in the order of their edges, at most one
mail is attempted for each state and window between recoveries, every recovery that reaches the
floor is attempted, and so is the first crossing into a state after a recovery; and every task
finishes. -/
theorem nothing_hidden_in_order (windowMinutes : Nat) (isAllowed : String → Bool) (clock : Time)
    (acts : List NotifyAct)
    (h : (notifierMachine windowMinutes isAllowed clock).Along (InOrder windowMinutes)
      (notifierMachine windowMinutes isAllowed clock).begin_ acts) :
    let c := (notifierMachine windowMinutes isAllowed clock).after acts
    OncePerWindow windowMinutes c ∧ RecoveriesMail isAllowed c ∧ FirstCrossingsMail isAllowed c ∧
      ∀ (k : Nat) (task : NotifyTask), c.state.tasks[k]? = some task → ∀ more : List NotifyAct,
        task.program.length ≤ more.countP (NotifyAct.isStepOf k) →
        ∃ task', ((notifierMachine windowMinutes isAllowed clock).run c more).state.tasks[k]? =
            some task' ∧ task'.notice = task.notice ∧ task'.program = .finished := by
  have hstart := Orderly.start windowMinutes isAllowed clock
  have hrun : Orderly windowMinutes isAllowed
      ((notifierMachine windowMinutes isAllowed clock).after acts) :=
    (notifierMachine windowMinutes isAllowed clock).along_induct (fun _ _ hc ha => hc.step ha) hstart h
  exact ⟨hrun.oncePerWindow, hrun.recoveriesMail, hrun.firstCrossingsMail,
    fun k task htask more hmore => task_finishes htask more hmore⟩

/-! ## An alarm that is hidden -/

/-- An edge of a dashboard that mails about critical states. -/
def labEdge (previous current : CheckState) (claim : Nat) : DashboardNotice :=
  ⟨0, "lab", previous, current, some "ops@example.org", .critical, [], none, [], claim⟩

/-- An alarm, its recovery, and the next alarm. -/
def incidentEdges : List NotifyAct :=
  [.edge (labEdge .ok .critical 0), .edge (labEdge .critical .ok 1), .edge (labEdge .ok .critical 2)]

def answered (k n : Nat) : List NotifyAct := List.replicate n (.step k true)

instance (windowMinutes : Nat) (c : Config Notifier NotifyEvent) :
    (a : NotifyAct) → Decidable (InOrder windowMinutes c a)
  | .edge notice => inferInstanceAs (Decidable ((∀ change ∈ notice.memberChange.toList ++
      notice.memberChanges, isWorsening change.previousState change.currentState = true) ∧
      (notice.recovers = true → notice.emailSet = true)))
  | .step k answers => inferInstanceAs (Decidable (∀ task ∈ c.state.tasks[k]?, task.begun = false →
      ∀ state ∈ suppressibleStates, task.notice.touches windowMinutes state = true →
        answers = true ∧ ∀ earlier ∈ c.state.tasks.take k,
          earlier.notice.touches windowMinutes state = true → earlier.begun = true))
  | .wait _ => isTrue trivial

/-- The tasks run one after the other: the second alarm mails. -/
theorem nothing_hidden_in_order_incident :
    (notifierMachine 30 (fun _ => true) 0).Along (InOrder 30)
        (notifierMachine 30 (fun _ => true) 0).begin_
        (incidentEdges ++ answered 0 2 ++ answered 1 2 ++ answered 2 2) ∧
      .attempted 2 (labEdge .ok .critical 2) ∈ ((notifierMachine 30 (fun _ => true) 0).after
        (incidentEdges ++ answered 0 2 ++ answered 1 2 ++ answered 2 2)).events := by
  have hin : (notifierMachine 30 (fun _ => true) 0).Along (InOrder 30)
      (notifierMachine 30 (fun _ => true) 0).begin_
      (incidentEdges ++ answered 0 2 ++ answered 1 2 ++ answered 2 2) := by decide +kernel
  refine ⟨hin, ?_⟩
  have hfirst := (nothing_hidden_in_order 30 (fun _ => true) 0 _ hin).2.2.1
  refine hfirst 1 2 ⟨labEdge .critical .ok 1, .finished, true⟩ ⟨labEdge .ok .critical 2, .finished, true⟩
    .critical (by decide) rfl rfl rfl (by decide) rfl (by decide +kernel) ?_ rfl
  intro i task hri hij
  omega

/-- The second alarm asks for its window before the recovery has cleared it: it is lost. -/
theorem second_alarm_hidden :
    ¬ FirstCrossingsMail (fun _ => true) ((notifierMachine 30 (fun _ => true) 0).after
      (incidentEdges ++ answered 0 2 ++ answered 2 1 ++ answered 1 2)) := by
  intro h
  have hmailed := h 1 2 ⟨labEdge .critical .ok 1, .finished, true⟩
    ⟨labEdge .ok .critical 2, .finished, true⟩ .critical (by decide) rfl rfl rfl (by decide) rfl
    (by decide +kernel) (by intro i task hri hij; omega) rfl
  revert hmailed
  decide +kernel

end Meho.Checks
