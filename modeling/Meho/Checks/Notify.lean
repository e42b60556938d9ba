import Meho.Approval.Delegation
import Meho.Checks.Transitions

/- The mails about a dashboard (checks/notify.py).

A notice is handled by a task of its own. `Notification` is what a task does, as a tree
of its operations: between two of them other tasks may run. The windows that keep a
flapping dashboard from mailing are keys of a store with an expiry. A crossing into a
state that is not green claims the key of the state, if it is not there, and mails; a
recovery clears the keys of all states. The store may fail to answer; then the task
goes on as if it had won.

Correspondence: `_suppression_key` ↔ `WindowKey`, `_claim_suppression` and
`_claim_member_windows` ↔ `Notification.claim`, `_clear_suppression` ↔
`Notification.clear`; what is not listed keeps its name. Whether an address is
on the deployment's allowlist is a parameter. A tenant's id is part of every
key and the same in all keys of a dashboard. -/
namespace Meho.Checks
open Meho.Lib

/-! ## The gates -/

def notifyRank : CheckState → Nat
  | .ok => 0
  | .skip => 0
  | .unknown => 1
  | .degraded => 1
  | .critical => 2

def suppressibleStates : List CheckState := [.unknown, .degraded, .critical]

/-- The edge that the gates judge: the member's, for a notice about a member. -/
def DashboardNotice.edge (notice : DashboardNotice) : CheckState × CheckState :=
  match notice.memberChange with
  | some change => (change.previousState, change.currentState)
  | none => (notice.previousState, notice.currentState)

def crossesThreshold (previous current minState : CheckState) : Bool :=
  notifyRank minState ≤ max (notifyRank previous) (notifyRank current)

/-- A key of the store, of one dashboard. -/
inductive WindowKey where
  | dashboard (state : CheckState)
  | member (sensorId : Nat) (state : CheckState)
  deriving DecidableEq

def DashboardNotice.key (notice : DashboardNotice) : WindowKey :=
  match notice.memberChange with
  | some change => .member change.sensorId change.currentState
  | none => .dashboard notice.currentState

/-- `_MAX_MEMBER_LINES`. -/
def maxMemberLines : Nat := 20

/-- The members that the mail lists; the one that the notice is about comes first. -/
def shownMembers (notice : DashboardNotice) : List NotifyMember :=
  let members : List NotifyMember :=
    match notice.memberChange with
    | some change =>
      notice.members.filter (·.sensorId = change.sensorId) ++
        notice.members.filter (·.sensorId ≠ change.sensorId)
    | none => notice.members
  members.take maxMemberLines

def allowedRecipients (isAllowed : String → Bool) (raw : String) : List String :=
  let entries := (raw.toList.splitOn ',').map fun part => String.ofList (Approval.strip part)
  entries.filter fun entry => entry ≠ "" && isAllowed entry

/-! ## What a task does -/

/-- The operations of a task that others can run between. -/
inductive Notification where
  | finished
  | clear (rest : Notification)
  | claim (key : WindowKey) (won lost failed : Notification)
  | deliver (notice : DashboardNotice) (recipients : List String) (rest : Notification)

section Notify
variable (windowMinutes : Nat) (isAllowed : String → Bool)

/-- The mail, if a recipient is allowed. -/
def deliverTo (notice : DashboardNotice) (email : String) (rest : Notification) : Notification :=
  let recipients := allowedRecipients isAllowed email
  if recipients.isEmpty then rest else .deliver notice recipients rest

/-- A mail of the dashboard claims the windows of the members it lists, held or not. When the store
does not answer the other members are left. -/
def claimMemberWindows (notice : DashboardNotice) (mail : Notification) : Notification :=
  (shownMembers notice).foldr
    (fun m rest => .claim (.member m.sensorId m.effectiveState) rest rest mail) mail

/-- One notice: `suppressed` is what follows if its window is held, `rest` what follows else. -/
def notifyGates (notice : DashboardNotice) (suppressed rest : Notification) : Notification :=
  match notice.notifyEmail with
  | none => rest
  | some email =>
    if email = "" then rest
    else
      let suppressible := suppressibleStates.contains notice.edge.2
      let mail := deliverTo isAllowed notice email rest
      let gated :=
        if !crossesThreshold notice.edge.1 notice.edge.2 notice.notifyMinState then rest
        else if 0 < windowMinutes && suppressible then
          let won := if notice.memberChange.isNone then claimMemberWindows notice mail else mail
          .claim notice.key won suppressed won
        else mail
      if 0 < windowMinutes && !suppressible then .clear gated else gated

/-- `_member_notice`. -/
def memberNotice (notice : DashboardNotice) (change : MemberChange) : DashboardNotice :=
  { notice with memberChange := some change, memberChanges := [] }

/-- The members that rode along, one notice each. A notice about a member has no riders. -/
def notifyMembers (notice : DashboardNotice) (changes : List MemberChange) : Notification :=
  changes.foldr (fun change rest =>
    notifyGates windowMinutes isAllowed (memberNotice notice change) rest rest) .finished

def notifyDashboardTransition (notice : DashboardNotice) : Notification :=
  notifyGates windowMinutes isAllowed notice
    (notifyMembers windowMinutes isAllowed notice notice.memberChanges) .finished

end Notify

/-! ## Tasks -/

/-- A task that delivers one notice. -/
structure NotifyTask where
  notice : DashboardNotice
  program : Notification
  /-- Not in the source: the task has taken its first step. -/
  begun : Bool

/-- The keys in Valkey and the tasks under way. -/
structure Notifier where
  clock : Time
  /-- When the keys that are there expire. -/
  keys : WindowKey → Option Time
  /-- One task for each notice, in the order in which the edges were claimed. -/
  tasks : List NotifyTask

/-- What the history of a run shows. -/
inductive NotifyEvent where
  /-- The store has answered a task that asked for a window. -/
  | claimed (task : Nat) (key : WindowKey) (clock : Time) (won : Bool)
  /-- A task has cleared the windows of the dashboard. -/
  | cleared (task : Nat)
  /-- A task has mailed about a notice. -/
  | attempted (task : Nat) (notice : DashboardNotice)
  deriving DecidableEq

/-- A new notice, a task's step or the passing of time. -/
inductive NotifyAct where
  | edge (notice : DashboardNotice)
  | step (k : Nat) (answers : Bool)
  | wait (d : Nat)

/-- `SET key NX` finds the key. -/
def Notifier.present (s : Notifier) (key : WindowKey) : Bool :=
  (s.keys key).any (s.clock < ·)

section Step
variable (windowMinutes : Nat) (isAllowed : String → Bool)

/-- The keys after `DEL` of every suppressible state of the dashboard. -/
def clearedKeys (keys : WindowKey → Option Time) : WindowKey → Option Time
  | .dashboard state => if suppressibleStates.contains state then none else keys (.dashboard state)
  | .member sensorId state => keys (.member sensorId state)

/-- One operation of a task: the keys, what the task has left to do, and what is seen. -/
def operate (s : Notifier) (k : Nat) (answers : Bool) :
    Notification → (WindowKey → Option Time) × Notification × List NotifyEvent
  | .finished => (s.keys, .finished, [])
  | .clear rest =>
    if answers then (clearedKeys s.keys, rest, [.cleared k]) else (s.keys, rest, [])
  | .claim key won lost failed =>
    if !answers then (s.keys, failed, [])
    else if s.present key then (s.keys, lost, [.claimed k key s.clock false])
    else
      (Function.update s.keys key (some (s.clock + seconds (windowMinutes * 60))), won,
        [.claimed k key s.clock true])
  | .deliver notice _ rest => (s.keys, rest, [.attempted k notice])

def notifierStep (s : Notifier) : NotifyAct → Notifier × List NotifyEvent
  | .edge notice =>
    let program := notifyDashboardTransition windowMinutes isAllowed notice
    ({ s with tasks := s.tasks ++ [⟨notice, program, false⟩] }, [])
  | .step k answers =>
    match s.tasks[k]? with
    | some task =>
      let done := operate windowMinutes s k answers task.program
      ({ s with keys := done.1, tasks := s.tasks.set k ⟨task.notice, done.2.1, true⟩ }, done.2.2)
    | none => (s, [])
  | .wait d => ({ s with clock := s.clock + (d : Int) }, [])

/-- The tasks of one dashboard. -/
def notifierMachine (clock : Time) : Machine Notifier NotifyAct NotifyEvent :=
  ⟨⟨clock, fun _ => none, []⟩, notifierStep windowMinutes isAllowed⟩

end Step

end Meho.Checks
