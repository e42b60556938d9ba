import Meho.Checks.Rollup
import Meho.Lib.Courier
import Meho.Lib.History

/- The edges of a dashboard (checks/investigate.py).

After every reading of a sensor the dashboards that have it as a member are looked at
again. A call reads the clock. Then, under the lock of the dashboard and in one
transaction, it evaluates the members, moves the memo `lastRollupState` to the state
it computed and the memo `lastMemberState` of every member to what the member counts
for. What it has moved it owns: after the commit it hands the edge of the dashboard,
or the members that got worse, to the notifier.

A run interleaves the calls with each other and with whatever writes the sensors. The
lock makes the claim of a call one step; the clock was read before it.

Correspondence: `_process_transition` ↔ the actions `call`, `claim` and `schedule`,
`_claim_dashboard_transition` ↔ `claimDashboardTransition`; what is not listed keeps
its name. A call goes through all dashboards of its sensor; here it is seen from one of
them. The texts of the mails are left out, so the notices carry no values or evidence
of the members. -/
namespace Meho.Checks
open Meho.Lib

/-! ## Dashboards and notices -/

/-- One row of `check_dashboards`. -/
structure Dashboard where
  id : Nat
  name : String
  notifyEmail : Option String
  notifyMinState : CheckState
  lastRollupState : Option CheckState

/-- One row of `check_dashboard_sensors` and the sensor it links to. -/
structure MemberRow where
  lastMemberState : Option CheckState
  sensor : Sensor

structure MemberChange where
  sensorId : Nat
  name : String
  previousState : CheckState
  currentState : CheckState
  deriving DecidableEq, Repr

/-- A member as a mail names it. -/
structure NotifyMember where
  sensorId : Nat
  name : String
  effectiveState : CheckState
  deriving DecidableEq, Repr

structure DashboardNotice where
  dashboardId : Nat
  name : String
  previousState : CheckState
  currentState : CheckState
  notifyEmail : Option String
  notifyMinState : CheckState
  members : List NotifyMember
  memberChange : Option MemberChange
  memberChanges : List MemberChange
  /-- Not in the source: the number of the claim. -/
  claim : Nat
  deriving DecidableEq, Repr

/-- `_FIRE_RANK`. -/
def fireRank : CheckState → Nat
  | .ok => 0
  | .skip => 0
  | .unknown => 0
  | .degraded => 1
  | .critical => 2

def isWorsening (previous current : CheckState) : Bool :=
  fireRank previous < fireRank current && (current = .degraded || current = .critical)

/-! ## The claim -/

/-- The dashboard with the memo moved; `none` if the memo is not the expected one any more. -/
def claimRollupTransition (dashboard : Dashboard) (expected : Option CheckState)
    (new : CheckState) : Option Dashboard :=
  if dashboard.lastRollupState = expected then some { dashboard with lastRollupState := some new }
  else none

def claimMemberState (row : MemberRow) (expected : Option CheckState) (new : CheckState) :
    Option MemberRow :=
  if row.lastMemberState = expected then some { row with lastMemberState := some new } else none

/-- What a member has become: its memo, and the change if it got worse. -/
def claimMember (row : MemberRow) (now : Time) : MemberRow × Option MemberChange :=
  let previous := row.lastMemberState
  let current := (evaluateMember row.sensor.member now).effectiveState
  if previous = some current then (row, none)
  else
    match claimMemberState row previous current, previous with
    | some row', some previous =>
      (row', if isWorsening previous current then
        some ⟨row.sensor.id, row.sensor.name, previous, current⟩ else none)
    | some row', none => (row', none)
    | none, _ => (row, none)

def claimMemberChanges (members : List MemberRow) (now : Time) :
    List MemberRow × List MemberChange :=
  (members.map fun row => (claimMember row now).1, members.filterMap fun row => (claimMember row now).2)

/-- A member that is not green, as the investigation sees it. -/
structure MemberSnapshot where
  sensorId : Nat
  name : String
  connectorId : String
  opId : String
  target : Option Dict
  severity : SensorSeverity
  rawState : CheckState
  effectiveState : CheckState

def memberSnapshot (sensor : Sensor) (evaluation : MemberEvaluation) : MemberSnapshot :=
  ⟨sensor.id, sensor.name, sensor.settings.connectorId, sensor.settings.opId, sensor.target,
    sensor.severity, evaluation.rawState, evaluation.effectiveState⟩

/-- The move a claim won, and its notice. -/
structure ClaimedTransition where
  nonGreen : List MemberSnapshot
  worsening : Bool
  notice : DashboardNotice

structure DashboardClaims where
  transition : Option ClaimedTransition
  memberNotices : List DashboardNotice

/-- The members that are neither ok nor left out. -/
def nonGreen (members : List MemberRow) (now : Time) : List MemberSnapshot :=
  (members.map fun row =>
    memberSnapshot row.sensor (evaluateMember row.sensor.member now)).filter
      fun m => m.effectiveState ≠ .ok && m.effectiveState ≠ .skip

def dashboardNotice (dashboard : Dashboard) (previous current : CheckState)
    (nonGreen : List MemberSnapshot) (claim : Nat) (memberChange : Option MemberChange)
    (memberChanges : List MemberChange) : DashboardNotice :=
  ⟨dashboard.id, dashboard.name, previous, current, dashboard.notifyEmail, dashboard.notifyMinState,
    nonGreen.map fun m => ⟨m.sensorId, m.name, m.effectiveState⟩, memberChange, memberChanges, claim⟩

/-- The claim under the lock: the dashboard and its members afterwards, and what is owned. -/
def claimDashboardTransition (dashboard : Dashboard) (members : List MemberRow) (now : Time)
    (claim : Nat) : Dashboard × List MemberRow × DashboardClaims :=
  let current := rollup (members.map (·.sensor.member)) now
  let previousMemo := dashboard.lastRollupState
  let previous := previousMemo.getD .ok
  if previousMemo = some current then
    -- the state of the dashboard stays: each change of a member is a notice of its own
    let claimed := claimMemberChanges members now
    (dashboard, claimed.1, ⟨none, claimed.2.map fun change =>
      dashboardNotice dashboard previous current (nonGreen members now) claim (some change) []⟩)
  else
    match claimRollupTransition dashboard previousMemo current with
    | none => (dashboard, members, ⟨none, []⟩)
    | some dashboard' =>
      let claimed := claimMemberChanges members now
      (dashboard', claimed.1, ⟨some ⟨nonGreen members now, isWorsening previous current,
        dashboardNotice dashboard previous current (nonGreen members now) claim none claimed.2⟩, []⟩)

/-! ## Calls -/

/-- How far a call is. -/
inductive CallStage where
  | started (now : Time)
  | claimed (claims : DashboardClaims)
  | done

/-- A dashboard, its members and the claim calls under way. -/
structure Board where
  dashboard : Dashboard
  members : List MemberRow
  calls : List CallStage
  /-- Not in the source: how many claims were made. -/
  claims : Nat
  /-- Not in the source: the clock of the last claim, unless a member has changed since. -/
  asOf : Option Time

/-- A move of `lastRollupState`. -/
structure Edge where
  source : Option CheckState
  target : CheckState
  deriving DecidableEq, Repr

/-- What the history of a run shows. -/
inductive BoardEvent where
  /-- A claim has moved the memo of the dashboard. -/
  | edge (claim : Nat) (edge : Edge)
  /-- A claim has moved the memo of a member to a worse state. -/
  | worse (claim : Nat) (change : MemberChange)
  /-- An investigation was spawned. -/
  | investigated (members : List MemberSnapshot)
  /-- A notice was handed to the notifier. -/
  | notified (notice : DashboardNotice)

/-- A statement of a claim call, or a change of the members. -/
inductive BoardAct where
  | call (now : Time)
  | claim (k : Nat)
  | schedule (k : Nat)
  | sensors (f : Sensor → Sensor)
  | join (sensor : Sensor)
  | leave (sensorId : Nat)
  | configure (name : String) (notifyEmail : Option String) (notifyMinState : CheckState)

/-- The edge between two versions of the dashboard. -/
def edgeBetween (before after : Dashboard) : Option Edge :=
  if after.lastRollupState = before.lastRollupState then none
  else after.lastRollupState.map fun state => ⟨before.lastRollupState, state⟩

/-- The change between two versions of a member, if both are known and it got worse. -/
def changeBetween (before after : MemberRow) : Option MemberChange :=
  match before.lastMemberState, after.lastMemberState with
  | some previous, some current =>
    if isWorsening previous current then
      some ⟨after.sensor.id, after.sensor.name, previous, current⟩ else none
  | _, _ => none

/-- What a claim has moved, read off the rows before and after it. -/
def movedBetween (claim : Nat) (dashboard dashboard' : Dashboard)
    (members members' : List MemberRow) : List BoardEvent :=
  (edgeBetween dashboard dashboard').toList.map (.edge claim) ++
    ((members.zip members').filterMap fun m => changeBetween m.1 m.2).map (.worse claim)

/-- What a call hands over after its claim. -/
def scheduled (claims : DashboardClaims) : List BoardEvent :=
  (claims.transition.toList.flatMap fun claim =>
    (if claim.worsening && !claim.nonGreen.isEmpty then [.investigated claim.nonGreen] else []) ++
      [.notified claim.notice]) ++
    claims.memberNotices.map .notified

def boardStep (b : Board) : BoardAct → Board × List BoardEvent
  | .call now => ({ b with calls := b.calls ++ [.started now] }, [])
  | .claim k =>
    match b.calls[k]? with
    | some (.started now) =>
      -- the roll-up and the claims are one transaction
      let claimed := claimDashboardTransition b.dashboard b.members now b.claims
      ({ dashboard := claimed.1
         members := claimed.2.1
         calls := b.calls.set k (.claimed claimed.2.2)
         claims := b.claims + 1
         asOf := some now },
        movedBetween b.claims b.dashboard claimed.1 b.members claimed.2.1)
    | _ => (b, [])
  | .schedule k =>
    match b.calls[k]? with
    | some (.claimed claims) => ({ b with calls := b.calls.set k .done }, scheduled claims)
    | _ => (b, [])
  | .sensors f =>
    ({ b with
       members := b.members.map fun row => { row with sensor := f row.sensor }
       asOf := none }, [])
  | .join sensor => ({ b with members := b.members ++ [⟨none, sensor⟩], asOf := none }, [])
  | .leave sensorId =>
    ({ b with members := b.members.filter (·.sensor.id ≠ sensorId), asOf := none }, [])
  | .configure name notifyEmail notifyMinState =>
    let configured := { b.dashboard with
      name := name
      notifyEmail := notifyEmail
      notifyMinState := notifyMinState }
    ({ b with dashboard := configured }, [])

/-- The calls for one dashboard. -/
def boardMachine (dashboard : Dashboard) (members : List MemberRow) :
    Machine Board BoardAct BoardEvent :=
  ⟨⟨dashboard, members, [], 0, none⟩, boardStep⟩

/-! ## What a claim does -/

section Claim
variable (dashboard : Dashboard) (members : List MemberRow) (now : Time) (claim : Nat)

/-- A member's memo is what it counts for. -/
theorem claimMember_fst (row : MemberRow) :
    (claimMember row now).1 =
      { row with lastMemberState := some (evaluateMember row.sensor.member now).effectiveState } := by
  obtain ⟨memo, sensor⟩ := row
  unfold claimMember claimMemberState
  dsimp only
  split
  · rename_i hsame
    rw [hsame]
  · rw [if_pos rfl]
    cases memo with
    | none => rfl
    | some previous => rfl

/-- A state is not worse than itself. -/
theorem isWorsening_self (state : CheckState) : isWorsening state state = false := by
  cases state <;> rfl

/-- A member has a change exactly if its memo got worse. -/
theorem claimMember_snd (row : MemberRow) :
    (claimMember row now).2 = changeBetween row (claimMember row now).1 := by
  rw [claimMember_fst]
  obtain ⟨memo, sensor⟩ := row
  unfold claimMember claimMemberState changeBetween
  dsimp only
  split
  · rename_i hsame
    rw [hsame]
    dsimp only
    rw [isWorsening_self]
    rfl
  · rw [if_pos rfl]
    cases memo with
    | none => rfl
    | some previous => rfl

theorem filterMap_zip_map {α β : Type} (f : α → α) (g : α → α → Option β) (l : List α) :
    (l.zip (l.map f)).filterMap (fun m => g m.1 m.2) = l.filterMap fun m => g m (f m) := by
  induction l with
  | nil => rfl
  | cons m l ih =>
    rw [List.map_cons, List.zip_cons_cons, List.filterMap_cons, List.filterMap_cons, ih]

/-- The changes that a claim owns are the moves of the members' memos to worse states. -/
theorem claimMemberChanges_snd :
    (claimMemberChanges members now).2 =
      (members.zip (claimMemberChanges members now).1).filterMap fun m => changeBetween m.1 m.2 := by
  unfold claimMemberChanges
  dsimp only
  rw [filterMap_zip_map]
  exact List.filterMap_congr fun row _ => claimMember_snd now row

/-- The memos do not show in the members' states. -/
theorem claimMemberChanges_members :
    (claimMemberChanges members now).1.map (·.sensor) = members.map (·.sensor) := by
  unfold claimMemberChanges
  dsimp only
  rw [List.map_map]
  refine List.map_congr_left fun row _ => ?_
  rw [Function.comp_apply, claimMember_fst]

/-- The state that the claim computes. -/
def currentState : CheckState := rollup (members.map (·.sensor.member)) now

/-- **What a claim moves and owns.** -/
theorem claim_spec (dashboard' : Dashboard) (members' : List MemberRow) (claims : DashboardClaims)
    (h : claimDashboardTransition dashboard members now claim = (dashboard', members', claims)) :
    dashboard' = { dashboard with lastRollupState := some (currentState members now) } ∧
      members' = (claimMemberChanges members now).1 ∧
      ((dashboard.lastRollupState = some (currentState members now) ∧ claims.transition = none ∧
          claims.memberNotices = (claimMemberChanges members now).2.map fun change =>
            dashboardNotice dashboard (dashboard.lastRollupState.getD .ok)
              (currentState members now) (nonGreen members now) claim (some change) []) ∨
        (dashboard.lastRollupState ≠ some (currentState members now) ∧ claims.memberNotices = [] ∧
          ∃ transition, claims.transition = some transition ∧
            transition.notice = dashboardNotice dashboard (dashboard.lastRollupState.getD .ok)
              (currentState members now) (nonGreen members now) claim none
              (claimMemberChanges members now).2)) := by
  unfold claimDashboardTransition claimRollupTransition at h
  dsimp only at h
  split at h
  · rename_i hsame
    cases h
    refine ⟨?_, rfl, .inl ⟨hsame, rfl, rfl⟩⟩
    show dashboard = { dashboard with lastRollupState := some (rollup _ now) }
    rw [← hsame]
  · rename_i hedge
    rw [if_pos rfl] at h
    cases h
    exact ⟨rfl, rfl, .inr ⟨hedge, rfl, _, rfl, rfl⟩⟩

/-- The memo is the state that the claim computes. -/
theorem claim_memo :
    (claimDashboardTransition dashboard members now claim).1.lastRollupState =
      some (currentState members now) := by
  have hspec := claim_spec dashboard members now claim
    (claimDashboardTransition dashboard members now claim).1
    (claimDashboardTransition dashboard members now claim).2.1
    (claimDashboardTransition dashboard members now claim).2.2 rfl
  rw [hspec.1]

end Claim

end Meho.Checks
