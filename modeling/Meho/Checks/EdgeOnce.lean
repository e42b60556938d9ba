import Meho.Checks.Transitions

/- The edges of a dashboard form a chain, and each is handed to the notifier once.

The memo `lastRollupState` is moved by claims only, and a claim moves it from what it
is to what the claim computes. So the edges follow one another (`EdgeChain`). What a
claim has moved is carried by its call until the call hands it over (`Conserved`): the
edge of the dashboard, and the members that got worse, as riders of the edge or as
notices of their own.

The state that a claim computes depends on its clock. A clock that goes on makes no
member better, unless the member becomes overdue (`rollup_mono`). So a claim makes the
dashboard better only if a member row has changed, a member has become overdue, or its
clock was read before that of the claim before it. -/
namespace Meho.Checks
open Meho.Lib

/-! ## What is handed over -/

/-- What a claim owns. -/
inductive Item where
  | edge (claim : Nat) (previous current : CheckState)
  | worse (claim : Nat) (change : MemberChange)
  deriving DecidableEq

def DashboardNotice.items (notice : DashboardNotice) : List Item :=
  (if notice.memberChange.isNone then
    [.edge notice.claim notice.previousState notice.currentState] else []) ++
    (notice.memberChange.toList ++ notice.memberChanges).map (.worse notice.claim)

def DashboardClaims.items (claims : DashboardClaims) : List Item :=
  (claims.transition.toList.map (·.notice) ++ claims.memberNotices).flatMap DashboardNotice.items

/-- What a call carries from its claim to the notifier. -/
def CallStage.items : CallStage → List Item
  | .claimed claims => claims.items
  | _ => []

/-- What was moved by a claim. -/
def BoardEvent.issued : BoardEvent → List Item
  | .edge claim e => [.edge claim (e.source.getD .ok) e.target]
  | .worse claim change => [.worse claim change]
  | _ => []

/-- What the notifier was given. -/
def BoardEvent.delivered : BoardEvent → List Item
  | .notified notice => notice.items
  | _ => []

def BoardEvent.edge? : BoardEvent → Option (Nat × Edge)
  | .edge claim e => some (claim, e)
  | _ => none

section Items
variable (claim : Nat) (dashboard dashboard' : Dashboard) (members members' : List MemberRow)

theorem issued_moved :
    (movedBetween claim dashboard dashboard' members members').flatMap BoardEvent.issued =
      (edgeBetween dashboard dashboard').toList.map
          (fun e => .edge claim (e.source.getD .ok) e.target) ++
        ((members.zip members').filterMap fun m => changeBetween m.1 m.2).map (.worse claim) := by
  unfold movedBetween
  rw [List.flatMap_append, List.flatMap_map, List.flatMap_map]
  simp only [BoardEvent.issued]
  rw [← List.map_eq_flatMap, ← List.map_eq_flatMap]

theorem delivered_moved :
    (movedBetween claim dashboard dashboard' members members').flatMap BoardEvent.delivered = [] := by
  unfold movedBetween
  rw [List.flatMap_append, List.flatMap_map, List.flatMap_map]
  simp [BoardEvent.delivered]

theorem edges_moved :
    (movedBetween claim dashboard dashboard' members members').filterMap BoardEvent.edge? =
      (edgeBetween dashboard dashboard').toList.map fun e => (claim, e) := by
  unfold movedBetween
  rw [List.filterMap_append, List.filterMap_map, List.filterMap_map]
  have hworse : (BoardEvent.edge? ∘ BoardEvent.worse claim) = fun _ => none := rfl
  have hedge : (BoardEvent.edge? ∘ BoardEvent.edge claim) = some ∘ fun e => (claim, e) := rfl
  rw [hworse, hedge]
  simp

variable (claims : DashboardClaims)

theorem delivered_scheduled : (scheduled claims).flatMap BoardEvent.delivered = claims.items := by
  obtain ⟨transition, memberNotices⟩ := claims
  unfold scheduled DashboardClaims.items
  rw [List.flatMap_append, List.flatMap_append, List.flatMap_map]
  cases transition with
  | none => rfl
  | some t =>
    cases hfires : (t.worsening && !t.nonGreen.isEmpty) <;>
      simp only [Option.toList_some, List.flatMap_cons, List.flatMap_nil, hfires] <;> rfl

theorem issued_scheduled : (scheduled claims).flatMap BoardEvent.issued = [] := by
  obtain ⟨transition, memberNotices⟩ := claims
  unfold scheduled
  rw [List.flatMap_append, List.flatMap_map]
  cases transition with
  | none => simp [BoardEvent.issued]
  | some t =>
    have hmembers : memberNotices.flatMap (fun n => (BoardEvent.notified n).issued) = [] := by
      simp [BoardEvent.issued]
    cases hfires : (t.worsening && !t.nonGreen.isEmpty) <;>
      simp only [Option.toList_some, List.flatMap_cons, List.flatMap_nil, hfires, hmembers] <;> rfl

theorem edges_scheduled : (scheduled claims).filterMap BoardEvent.edge? = [] := by
  rw [List.filterMap_eq_nil_iff]
  intro e he
  have hnone : e.issued = [] := List.flatMap_eq_nil_iff.mp (issued_scheduled claims) e he
  cases e with
  | edge claim edge => cases hnone
  | worse claim change => rfl
  | investigated ms => rfl
  | notified notice => rfl

variable (now : Time)

/-- **What a claim owns is what it has moved.** -/
theorem claim_items
    (h : claimDashboardTransition dashboard members now claim = (dashboard', members', claims)) :
    (movedBetween claim dashboard dashboard' members members').flatMap BoardEvent.issued =
      claims.items := by
  obtain ⟨hdashboard, hmembers, hclaims⟩ := claim_spec dashboard members now claim _ _ _ h
  rw [issued_moved, hmembers, ← claimMemberChanges_snd]
  unfold DashboardClaims.items
  rcases hclaims with ⟨hsame, htransition, hnotices⟩ | ⟨hedge, hnotices, transition, htransition, hnotice⟩
  · -- no edge: every change of a member is a notice
    have hnone : edgeBetween dashboard dashboard' = none := by
      unfold edgeBetween
      rw [hdashboard, hsame]
      exact if_pos rfl
    rw [hnone, htransition, hnotices]
    generalize (claimMemberChanges members now).2 = changes
    induction changes with
    | nil => rfl
    | cons change changes ih =>
      rw [List.map_cons, List.map_cons]
      exact congrArg (.worse claim change :: ·) ih
  · have hsome : edgeBetween dashboard dashboard' =
        some ⟨dashboard.lastRollupState, currentState members now⟩ := by
      unfold edgeBetween
      rw [hdashboard, if_neg (Ne.symm hedge)]
      rfl
    rw [hsome, htransition, hnotices]
    simp only [Option.toList, List.map_cons, List.map_nil, List.append_nil, List.flatMap_cons,
      List.flatMap_nil]
    rw [hnotice]
    rfl

end Items

/-- Each edge starts where the one before it ended, and leads elsewhere. -/
def EdgeChain : Option CheckState → List Edge → Option CheckState → Prop
  | start, [], last => start = last
  | start, e :: edges, last =>
    e.source = start ∧ e.source ≠ some e.target ∧ EdgeChain (some e.target) edges last

theorem EdgeChain.snoc {start : Option CheckState} {edges : List Edge} {e : Edge}
    (h : EdgeChain start edges e.source) (hmoves : e.source ≠ some e.target) :
    EdgeChain start (edges ++ [e]) (some e.target) := by
  induction edges generalizing start with
  | nil => exact ⟨h.symm, hmoves, rfl⟩
  | cons first edges ih => exact ⟨h.1, h.2.1, ih h.2.2⟩

/-! ## Runs -/

/-- The condition under which a claim does not make the dashboard better: the member rows are those
of the last claim, the clock has not gone back, and no member has become overdue. -/
def Settled (b : Board) (now : Time) : Prop :=
  ∃ t, b.asOf = some t ∧ t ≤ now ∧
    ∀ row ∈ b.members, row.sensor.member.overdue now = true → row.sensor.member.overdue t = true

/-- A settled claim does not make the dashboard better. -/
def NeverBetter (c : Config Board BoardEvent) (a : BoardAct) : Prop :=
  ∀ k now, a = .claim k → c.state.calls[k]? = some (.started now) → Settled c.state now →
    ∀ old new, c.state.dashboard.lastRollupState = some old →
      (boardStep c.state a).1.dashboard.lastRollupState = some new → badness old ≤ badness new

/-- What every run keeps. -/
structure Claimed (start : Option CheckState) (c : Config Board BoardEvent) : Prop where
  chain : EdgeChain start ((c.events.filterMap BoardEvent.edge?).map (·.2))
    c.state.dashboard.lastRollupState
  numbers : ((c.events.filterMap BoardEvent.edge?).map (·.1)).Pairwise (· < ·)
  below : ∀ x ∈ c.events.filterMap BoardEvent.edge?, x.1 < c.state.claims
  conserved : Conserved (c.events.flatMap BoardEvent.issued) (c.events.flatMap BoardEvent.delivered)
    (c.state.calls.map CallStage.items)
  asOf : ∀ t, c.state.asOf = some t →
    c.state.dashboard.lastRollupState = some (currentState c.state.members t)

section Runs
variable {start : Option CheckState} {b b' : Board} {events : List BoardEvent}

/-- A step that claims and hands over nothing. -/
theorem Claimed.quiet (h : Claimed start ⟨b, events⟩)
    (hmemo : b'.dashboard.lastRollupState = b.dashboard.lastRollupState)
    (hclaims : b'.claims = b.claims)
    (hconserved : Conserved (events.flatMap BoardEvent.issued) (events.flatMap BoardEvent.delivered)
      (b'.calls.map CallStage.items))
    (hasOf : ∀ t, b'.asOf = some t → b'.dashboard.lastRollupState =
      some (currentState b'.members t)) : Claimed start ⟨b', events ++ []⟩ := by
  rw [List.append_nil]
  exact ⟨hmemo ▸ h.chain, h.numbers, hclaims ▸ h.below, hconserved, hasOf⟩

theorem currentState_congr {members members' : List MemberRow}
    (h : members'.map (·.sensor) = members.map (·.sensor)) (t : Time) :
    currentState members' t = currentState members t := by
  have hmap : ∀ ms : List MemberRow,
      ms.map (·.sensor.member) = (ms.map (·.sensor)).map Sensor.member := by
    intro ms
    rw [List.map_map]
    rfl
  unfold currentState
  rw [hmap, hmap, h]

section
variable (h : Claimed start ⟨b, events⟩)
include h

theorem Claimed.edges {dashboard' : Dashboard} (members' : List MemberRow) {state : CheckState}
    (hmemo : dashboard'.lastRollupState = some state) :
    let moved := movedBetween b.claims b.dashboard dashboard' b.members members'
    EdgeChain start (((events ++ moved).filterMap BoardEvent.edge?).map (·.2))
        dashboard'.lastRollupState ∧
      (((events ++ moved).filterMap BoardEvent.edge?).map (·.1)).Pairwise (· < ·) ∧
      ∀ x ∈ (events ++ moved).filterMap BoardEvent.edge?, x.1 < b.claims + 1 := by
  dsimp only
  rw [List.filterMap_append, edges_moved, List.map_append, List.map_append, List.map_map,
    List.map_map]
  have hbelow : ∀ x ∈ events.filterMap BoardEvent.edge?, x.1 < b.claims := h.below
  by_cases hsame : dashboard'.lastRollupState = b.dashboard.lastRollupState
  · have hnone : edgeBetween b.dashboard dashboard' = none := if_pos hsame
    rw [hnone, hsame]
    simp only [Option.toList_none, List.map_nil, List.append_nil]
    exact ⟨h.chain, h.numbers, fun x hx => Nat.lt_succ_of_lt (hbelow x hx)⟩
  · have hedge : edgeBetween b.dashboard dashboard' =
        some ⟨b.dashboard.lastRollupState, state⟩ := by
      unfold edgeBetween
      rw [if_neg hsame, hmemo]
      rfl
    rw [hmemo] at hsame
    rw [hedge, hmemo]
    simp only [Option.toList_some, List.map_cons, List.map_nil, Function.comp_apply]
    refine ⟨h.chain.snoc (Ne.symm hsame), ?_, ?_⟩
    · rw [List.pairwise_append]
      refine ⟨h.numbers, List.pairwise_singleton _ _, ?_⟩
      intro n hn m hm
      obtain ⟨x, hx, rfl⟩ := List.mem_map.mp hn
      rw [List.mem_singleton.mp hm]
      exact hbelow x hx
    · intro x hx
      rcases List.mem_append.mp hx with hx | hx
      · exact Nat.lt_succ_of_lt (hbelow x hx)
      · rw [List.mem_singleton.mp hx]
        exact Nat.lt_succ_self _

/-- A claim moves the memos, and its call carries what it has moved. -/
theorem Claimed.claim {k : Nat} {now : Time} (hcall : b.calls[k]? = some (.started now))
    {dashboard' : Dashboard} {members' : List MemberRow} {claims : DashboardClaims}
    (hclaim : claimDashboardTransition b.dashboard b.members now b.claims =
      (dashboard', members', claims)) :
    Claimed start ⟨⟨dashboard', members', b.calls.set k (.claimed claims), b.claims + 1, some now⟩,
      events ++ movedBetween b.claims b.dashboard dashboard' b.members members'⟩ := by
  obtain ⟨hdashboard, hmembers, -⟩ := claim_spec b.dashboard b.members now b.claims _ _ _ hclaim
  have hmemo : dashboard'.lastRollupState = some (currentState b.members now) := by
    rw [hdashboard]
  obtain ⟨hchain, hnumbers, hbelow⟩ := h.edges members' hmemo
  refine ⟨hchain, hnumbers, hbelow, ?_, ?_⟩
  · have hnothing : (b.calls.map CallStage.items)[k]? = some [] := by
      rw [List.getElem?_map, hcall]
      rfl
    dsimp only
    rw [List.flatMap_append, List.flatMap_append, delivered_moved, List.append_nil,
      claim_items b.claims b.dashboard dashboard' b.members members' claims now hclaim, List.map_set]
    exact h.conserved.issue hnothing claims.items
  · intro t ht
    cases ht
    have hsame := currentState_congr (claimMemberChanges_members b.members now) now
    dsimp only
    rw [hmemo, hmembers, hsame]

theorem Claimed.schedule {k : Nat} {claims : DashboardClaims}
    (hcall : b.calls[k]? = some (.claimed claims)) :
    Claimed start ⟨{ b with calls := b.calls.set k .done }, events ++ scheduled claims⟩ := by
  have hcarried : (b.calls.map CallStage.items)[k]? = some claims.items := by
    rw [List.getElem?_map, hcall]
    rfl
  have hedges : (events ++ scheduled claims).filterMap BoardEvent.edge? =
      events.filterMap BoardEvent.edge? := by
    rw [List.filterMap_append, edges_scheduled, List.append_nil]
  refine ⟨?_, ?_, ?_, ?_, h.asOf⟩
  · rw [hedges]
    exact h.chain
  · rw [hedges]
    exact h.numbers
  · rw [hedges]
    exact h.below
  · dsimp only
    rw [List.flatMap_append, List.flatMap_append, issued_scheduled, List.append_nil,
      delivered_scheduled, List.map_set]
    exact h.conserved.deliver hcarried

theorem Claimed.step (a : BoardAct) :
    Claimed start ⟨(boardStep b a).1, events ++ (boardStep b a).2⟩ := by
  cases a with
  | call now =>
    refine h.quiet rfl rfl ?_ h.asOf
    show Conserved _ _ ((b.calls ++ [CallStage.started now]).map CallStage.items)
    rw [List.map_append]
    exact h.conserved.begin_
  | claim k =>
    simp only [boardStep]
    split
    · rename_i hcall
      exact h.claim hcall rfl
    · exact h.quiet rfl rfl h.conserved h.asOf
  | schedule k =>
    simp only [boardStep]
    split
    · rename_i hcall
      exact h.schedule hcall
    · exact h.quiet rfl rfl h.conserved h.asOf
  | sensors f | join sensor | leave sensorId => exact h.quiet rfl rfl h.conserved nofun
  | configure name notifyEmail notifyMinState => exact h.quiet rfl rfl h.conserved h.asOf

end

/-- A settled claim computes a state that is not better. -/
theorem Claimed.neverBetter {c : Config Board BoardEvent} (h : Claimed start c) (a : BoardAct) :
    NeverBetter c a := by
  rintro k now rfl hcall ⟨t, hasOf, hle, hoverdue⟩ old new hold hnew
  have hbefore := h.asOf t hasOf
  have hafter : (boardStep c.state (.claim k)).1.dashboard.lastRollupState =
      some (currentState c.state.members now) := by
    simp only [boardStep, hcall]
    exact claim_memo c.state.dashboard c.state.members now c.state.claims
  rw [hold] at hbefore
  rw [hnew] at hafter
  cases hbefore
  cases hafter
  refine rollup_mono hle ?_
  intro m hm
  obtain ⟨row, hrow, rfl⟩ := List.mem_map.mp hm
  exact hoverdue row hrow

/-- **Edges are claimed once and handed over once.** In every interleaving of the calls for one
dashboard with each other and with changes of its members: the claimed edges are one chain over
`lastRollupState`; every edge, and every member whose known memo got worse, was handed to the
notifier once, or is carried by the one call that is to do it; and a claim whose clock is not
before the last one's, with the same member rows and no member that became overdue, does not make
the dashboard better. -/
theorem edges_claimed_once (dashboard : Dashboard) (members : List MemberRow)
    (acts : List BoardAct) :
    let c := (boardMachine dashboard members).after acts
    let edges := c.events.filterMap BoardEvent.edge?
    EdgeChain dashboard.lastRollupState (edges.map (·.2)) c.state.dashboard.lastRollupState ∧
      (edges.map (·.1)).Pairwise (· < ·) ∧
      Conserved (c.events.flatMap BoardEvent.issued) (c.events.flatMap BoardEvent.delivered)
        (c.state.calls.map CallStage.items) ∧
      (boardMachine dashboard members).Along NeverBetter (boardMachine dashboard members).begin_
        acts := by
  have hstart : Claimed dashboard.lastRollupState (boardMachine dashboard members).begin_ :=
    ⟨rfl, List.Pairwise.nil, nofun, Conserved.empty, nofun⟩
  have hrun : Claimed dashboard.lastRollupState ((boardMachine dashboard members).after acts) :=
    (boardMachine dashboard members).run_induct (fun _ a hc => hc.step a) hstart acts
  exact ⟨hrun.chain, hrun.numbers, hrun.conserved,
    (boardMachine dashboard members).along_of_invariant (fun _ a hc => hc.step a)
      (fun _ a hc => hc.neverBetter a) hstart acts⟩

end Runs

/-! ## Better and back -/

def boardOk : Dashboard := ⟨0, "lab", none, .critical, some .ok⟩

/-- Critical at once, and due at 100 seconds. -/
def criticalNow : Sensor :=
  { heldSensor with
    forSeconds := 0
    lastState := .critical
    nextFireAt := some (seconds 100) }

/-- Critical from 50 seconds on, with a hold of five minutes. -/
def criticalHeld : Sensor :=
  { heldSensor with
    id := 1
    lastState := .critical
    stateSince := some (seconds 50)
    nextFireAt := some (seconds 900) }

/-- A call that runs alone. -/
def wholeCall (k : Nat) (now : Time) : List BoardAct := [.call now, .claim k, .schedule k]

/-- The clock goes on and no row changes: the first sensor becomes overdue, then the hold of the
second is over. -/
theorem better_and_back :
    (((boardMachine boardOk [⟨some .ok, criticalNow⟩, ⟨some .ok, criticalHeld⟩]).after
      (wholeCall 0 (seconds 100) ++ wholeCall 1 (seconds 200) ++
        wholeCall 2 (seconds 400))).events.filterMap BoardEvent.edge?).map (·.2) =
      [⟨some .ok, .critical⟩, ⟨some .critical, .degraded⟩, ⟨some .degraded, .critical⟩] := by
  decide +kernel

end Meho.Checks
