import Mathlib.Data.List.Chain
import Meho.Agent.RunLifecycle

/- An agent run ends once, when no write comes too late.

The guard of `transition` reads the row that its transaction loaded, and the flush
writes whatever the row holds by then. `NotOvertaken` says that nothing which closes
the move was committed in between. If every commit of a history is such a commit, the
committed statuses follow the table, the run ends once with one event that names its
final status, and a run that ended has its end time and no lease. One commit that is not
breaks this at once (`ends_once_iff_not_overtaken`). -/
namespace Meho.Agent
open Meho.Lib

/-! ## What a call asks for -/

/-- The status a call moves a row to, `none` if it moves it to none. -/
def Call.target (row : AgentRun) : Call → Option AgentRunStatus
  | .start .. => some .running
  | .transition toStatus => some toStatus
  | .succeed .. => some .succeeded
  | .fail _ => some .failed
  | .cancel role => if mayCancel role then some .cancelled else none
  | .reap => match row.inFlightPolicy with
    | .resume => none
    | .failIntoAudit => some .failed

/-- What a call that moves a row leaves in its session. -/
structure Moved (now : Time) (loaded : AgentRun) (toStatus : AgentRunStatus) (new : AgentRun)
    (published : List RunCompleted) : Prop where
  status : new.status = toStatus
  endedAt : new.endedAt = if toStatus.terminal then some now else loaded.endedAt
  leaseOwner : toStatus.terminal = true → new.leaseOwner = none
  leaseExpiresAt : toStatus.terminal = true → new.leaseExpiresAt = none
  published : published = if toStatus.terminal then [loaded.completedAs toStatus] else []

section Calls
variable {now : Time} {loaded new : AgentRun} {toStatus : AgentRunStatus}
  {published : List RunCompleted} {call : Call}

theorem transition_refused (h : toStatus ∉ allowedTransitions loaded.status) :
    transition now loaded toStatus = .error (.illegalTransition loaded.status toStatus) := by
  simp [transition, h]

@[simp] theorem stampStarted_endedAt (row : AgentRun) :
    (row.stampStarted now toStatus).endedAt = row.endedAt := by
  unfold AgentRun.stampStarted
  split <;> rfl

@[simp] theorem stampStarted_completedAs (row : AgentRun) (s : AgentRunStatus) :
    (row.stampStarted now toStatus).completedAs s = row.completedAs s := by
  unfold AgentRun.stampStarted
  split <;> rfl

variable (now) in
theorem transition_moves (h : toStatus ∈ allowedTransitions loaded.status) :
    ∃ new published, transition now loaded toStatus = .ok (new, published) ∧
      Moved now loaded toStatus new published := by
  simp only [transition, not_true_eq_false, h, if_false]
  refine ⟨_, _, rfl, ?_⟩
  cases hterm : toStatus.terminal with
  | true =>
    constructor <;> simp only [AgentRun.stampEnded, hterm, if_true, implies_true]
    exact congrArg ([·]) (stampStarted_completedAs loaded toStatus)
  | false =>
    constructor <;> simp [AgentRun.stampEnded, hterm]

/-- `transition` on a row that differs from the loaded one in columns it does not read. -/
theorem Moved.of_payload {row : AgentRun} (hended : row.endedAt = loaded.endedAt)
    (hnames : ∀ s, row.completedAs s = loaded.completedAs s)
    (h : Moved now row toStatus new published) : Moved now loaded toStatus new published where
  status := h.status
  endedAt := by rw [h.endedAt, hended]
  leaseOwner := h.leaseOwner
  leaseExpiresAt := h.leaseExpiresAt
  published := by rw [h.published, hnames]

/-- The same for a call that does nothing else. -/
theorem transition_moves_payload {row : AgentRun} (hstatus : row.status = loaded.status)
    (hended : row.endedAt = loaded.endedAt)
    (hnames : ∀ s, row.completedAs s = loaded.completedAs s)
    (h : toStatus ∈ allowedTransitions loaded.status) :
    ∃ new published, transition now row toStatus = .ok (new, published) ∧
      Moved now loaded toStatus new published := by
  obtain ⟨new, published, heq, hmoved⟩ := transition_moves now (hstatus ▸ h)
  exact ⟨new, published, heq, hmoved.of_payload hended hnames⟩

variable (now) in
/-- A call whose target the table allows succeeds, and moves the row there. -/
theorem apply_moves (htarget : call.target loaded = some toStatus)
    (h : toStatus ∈ allowedTransitions loaded.status) :
    ∃ new published, call.apply now loaded = .ok (new, published) ∧
      Moved now loaded toStatus new published := by
  cases call with
  | start provider model lease =>
    obtain rfl := Option.some.inj htarget
    have hprepared : ∃ new published, transition now
        { loaded with provider := some provider, model := some model } .running =
          .ok (new, published) ∧ Moved now loaded .running new published :=
      transition_moves_payload rfl rfl (fun _ => rfl) h
    obtain ⟨new, published, heq, hmoved⟩ := hprepared
    simp only [Call.apply, startRun, heq, Except.map]
    refine ⟨_, _, rfl, ?_⟩
    -- a lease is set on top of the move, which keeps status and end
    cases lease with
    | none => exact hmoved
    | some lease =>
      exact ⟨hmoved.status, hmoved.endedAt, fun hterm => absurd hterm (by decide),
        fun hterm => absurd hterm (by decide), hmoved.published⟩
  | transition t =>
    obtain rfl := Option.some.inj htarget
    exact transition_moves now h
  | succeed output cost turns usage =>
    obtain rfl := Option.some.inj htarget
    cases usage <;> exact transition_moves_payload rfl rfl (fun _ => rfl) h
  | fail error =>
    obtain rfl := Option.some.inj htarget
    exact transition_moves_payload rfl rfl (fun _ => rfl) h
  | cancel role =>
    by_cases hrole : mayCancel role = true
    · simp only [Call.target, hrole, if_true, Option.some.injEq] at htarget
      obtain rfl := htarget
      simpa [Call.apply, cancelRun, hrole] using transition_moves now h
    · simp [Call.target, hrole] at htarget
  | reap =>
    cases hpolicy : loaded.inFlightPolicy with
    | resume => simp [Call.target, hpolicy] at htarget
    | failIntoAudit =>
      simp only [Call.target, hpolicy, Option.some.injEq] at htarget
      obtain rfl := htarget
      simp only [Call.apply, reapOneRow, hpolicy]
      exact transition_moves_payload rfl rfl (fun _ => rfl) h

variable (now) in
theorem apply_refused (htarget : call.target loaded = some toStatus)
    (h : toStatus ∉ allowedTransitions loaded.status) :
    ∃ e, call.apply now loaded = .error e := by
  cases call with
  | start provider model lease =>
    obtain rfl := Option.some.inj htarget
    have hprepared : transition now
        { loaded with provider := some provider, model := some model } .running =
          .error (.illegalTransition loaded.status .running) := transition_refused h
    exact ⟨.illegalTransition loaded.status .running, by
      simp only [Call.apply, startRun, hprepared, Except.map]⟩
  | transition t | fail error =>
    obtain rfl := Option.some.inj htarget
    exact ⟨_, transition_refused h⟩
  | succeed output cost turns usage =>
    obtain rfl := Option.some.inj htarget
    cases usage <;> exact ⟨_, transition_refused h⟩
  | cancel role =>
    by_cases hrole : mayCancel role = true
    · simp only [Call.target, hrole, if_true, Option.some.injEq] at htarget
      obtain rfl := htarget
      exact ⟨_, by simpa [Call.apply, cancelRun, hrole] using transition_refused h⟩
    · simp [Call.target, hrole] at htarget
  | reap =>
    cases hpolicy : loaded.inFlightPolicy with
    | resume => simp [Call.target, hpolicy] at htarget
    | failIntoAudit =>
      simp only [Call.target, hpolicy, Option.some.injEq] at htarget
      obtain rfl := htarget
      exact ⟨_, by simp only [Call.apply, reapOneRow, hpolicy]; exact transition_refused h⟩

variable (now) in
theorem apply_no_target (htarget : call.target loaded = none) :
    (∃ e, call.apply now loaded = .error e) ∨
      call.apply now loaded = .ok (releaseLease loaded, []) := by
  cases call with
  | start _ _ _ | transition _ | succeed _ _ _ _ | fail _ => cases htarget
  | cancel role =>
    by_cases hrole : mayCancel role = true
    · simp [Call.target, hrole] at htarget
    · exact .inl ⟨_, by simp [Call.apply, cancelRun, hrole]; rfl⟩
  | reap =>
    cases hpolicy : loaded.inFlightPolicy with
    | resume => exact .inr (by simp [Call.apply, reapOneRow, hpolicy])
    | failIntoAudit => simp [Call.target, hpolicy] at htarget

/-- What a call can leave in its session. -/
theorem apply_ok (h : call.apply now loaded = .ok (new, published)) :
    (∃ toStatus, call.target loaded = some toStatus ∧
      toStatus ∈ allowedTransitions loaded.status ∧ Moved now loaded toStatus new published) ∨
      (call.target loaded = none ∧ new = releaseLease loaded ∧ published = []) := by
  cases htarget : call.target loaded with
  | none =>
    obtain ⟨e, he⟩ | hok := apply_no_target now htarget
    · rw [he] at h
      cases h
    · rw [hok] at h
      cases h
      exact .inr ⟨rfl, rfl, rfl⟩
  | some t =>
    by_cases hallowed : t ∈ allowedTransitions loaded.status
    · obtain ⟨new', published', heq, hmoved⟩ := apply_moves now htarget hallowed
      rw [heq] at h
      cases h
      exact .inl ⟨t, rfl, hallowed, hmoved⟩
    · obtain ⟨e, he⟩ := apply_refused now htarget hallowed
      rw [he] at h
      cases h

end Calls

/-! ## What is promised -/

def RunEvent.status? : RunEvent → Option AgentRunStatus
  | .status s => some s
  | .completed _ => none

def RunEvent.completed? : RunEvent → Option RunCompleted
  | .status _ => none
  | .completed event => some event

/-- The committed statuses of the row, from its insert on. -/
def statuses (c : Config RunRow RunEvent) : List AgentRunStatus :=
  .pending :: c.events.filterMap RunEvent.status?

/-- The `agent_run.completed` events in the outbox. -/
def completions (c : Config RunRow RunEvent) : List RunCompleted :=
  c.events.filterMap RunEvent.completed?

/-- One status leads to the next. -/
def Edge (a b : AgentRunStatus) : Prop := b ∈ allowedTransitions a

instance : DecidableRel Edge := fun a b => inferInstanceAs (Decidable (b ∈ allowedTransitions a))

/-- The end time is set for the terminal statuses and for no other, and a run that ended
holds no lease. -/
structure AgentRun.Settled (row : AgentRun) : Prop where
  ended : row.endedAt.isSome = row.status.terminal
  leaseOwner : row.status.terminal = true → row.leaseOwner = none
  leaseExpiresAt : row.status.terminal = true → row.leaseExpiresAt = none

/-- What is promised of a history in every committed state. -/
structure EndsOnce (c : Config RunRow RunEvent) : Prop where
  edges : (statuses c).IsChain Edge
  current : (statuses c).getLast? = some c.state.row.status
  final : ∀ before s after, statuses c = before ++ s :: after → s.terminal = true → after = []
  once : completions c = if c.state.row.status.terminal
    then [c.state.row.completedAs c.state.row.status] else []
  settled : c.state.row.Settled

/-- Nothing that closes the move was committed since the row was loaded: not the run's end,
not the same move, for `succeed_run` no pause, and for a move that ends the run no lease
that the transaction did not see. -/
structure NotOvertaken (loaded current : AgentRun) (toStatus : AgentRunStatus) : Prop where
  open_ : current.status.terminal = false
  first : current.status ≠ toStatus
  unpaused : toStatus = .succeeded → current.status ≠ .awaitingApproval
  leaseOwner : toStatus.terminal = true → loaded.leaseOwner = none → current.leaseOwner = none
  leaseExpiresAt : toStatus.terminal = true → loaded.leaseExpiresAt = none →
    current.leaseExpiresAt = none

/-- A commit whose call moves the loaded row is not overtaken. -/
def InTime (c : Config RunRow RunEvent) : RunAct → Prop
  | .commit tx _ call => ∀ loaded toStatus, c.state.opened tx = some loaded →
      call.fits (c.state.holder = some tx) = true → c.state.passes tx = true →
      call.target loaded = some toStatus → toStatus ∈ allowedTransitions loaded.status →
      NotOvertaken loaded c.state.row toStatus
  | _ => True

/-! ## Statuses -/

section Statuses
variable {a b c : AgentRunStatus}

theorem edge_ne (h : Edge a b) : b ≠ a := by
  cases a <;> cases b <;> revert h <;> decide

theorem edge_from_open (h : Edge a b) : a.terminal = false := by
  cases a <;> cases b <;> revert h <;> decide

theorem edge_not_pending (h : Edge a b) : b ≠ .pending := by
  cases a <;> cases b <;> revert h <;> decide

/-- The loaded status allows the move. The committed one does too exactly when it is open,
not there yet, and not a pause that the move would skip. -/
theorem edge_iff (h : Edge a b) (hpending : c = .pending → a = .pending) :
    Edge c b ↔ c.terminal = false ∧ c ≠ b ∧ (b = .succeeded → c ≠ .awaitingApproval) := by
  revert h hpending
  cases a <;> cases b <;> cases c <;> decide

end Statuses

/-! ## What a flush leaves -/

section Flush
variable {α : Type} [BEq α] [LawfulBEq α] {loaded new current : α}

theorem changed_same : changed loaded loaded current = current := by simp [changed]

theorem changed_ne (h : new ≠ loaded) : changed loaded new current = new := by simp [changed, h]

/-- What a flush clears is clear, and stays clear if it was. -/
theorem changed_none {loaded current : Option α} (h : loaded = none → current = none) :
    changed loaded none current = none := by
  cases loaded with
  | none => rw [changed_same, h rfl]
  | some x => exact changed_ne nofun

end Flush

/-- What the flush of a call that moves the row leaves in it. -/
theorem flush_moved {now : Time} {loaded new : AgentRun} {toStatus : AgentRunStatus}
    {published : List RunCompleted} (current : AgentRun) (hedge : Edge loaded.status toStatus)
    (hloaded : loaded.Settled)
    (h : Moved now loaded toStatus new published) :
    (flush loaded new current).status = toStatus ∧
      (flush loaded new current).endedAt =
        if toStatus.terminal then some now else current.endedAt := by
  refine ⟨?_, ?_⟩
  · show changed loaded.status new.status current.status = toStatus
    rw [h.status]
    exact changed_ne (edge_ne hedge)
  · show changed loaded.endedAt new.endedAt current.endedAt = _
    rw [h.endedAt]
    have hnone : loaded.endedAt = none := by
      have hopen := hloaded.ended.trans (edge_from_open hedge)
      exact Option.isSome_eq_false_iff.mp hopen |> Option.isNone_iff_eq_none.mp
    cases hterm : toStatus.terminal with
    | true => exact changed_ne (by rw [hnone]; exact nofun)
    | false => exact changed_same

/-! ## What every step keeps -/

/-- What a transaction that is still open may have loaded. -/
structure Past (current loaded : AgentRun) : Prop where
  pending : current.status = .pending → loaded.status = .pending
  settled : loaded.Settled
  names : ∀ s, loaded.completedAs s = current.completedAs s

/-- What is promised, with what carries it through a run. -/
structure Sound (c : Config RunRow RunEvent) : Prop where
  promised : EndsOnce c
  past : ∀ tx loaded, c.state.opened tx = some loaded → Past c.state.row loaded
  locked : ∀ tx, c.state.holder = some tx → c.state.opened tx = some c.state.row

section Steps
variable {c : Config RunRow RunEvent} {row : AgentRun} {opened : Nat → Option AgentRun}
  {holder : Option Nat} {tx : Nat}

/-- A step that writes nothing to the row. -/
theorem EndsOnce.keep (h : EndsOnce c) : EndsOnce ⟨⟨c.state.row, opened, holder⟩, c.events⟩ :=
  ⟨h.edges, h.current, h.final, h.once, h.settled⟩

/-- The loads of a row find it as it is. -/
theorem Sound.put (h : Sound c) (hholder : holder = c.state.holder ∨ holder = some tx) :
    Sound ⟨{ c.state.put tx c.state.row with holder }, c.events⟩ where
  promised := h.promised.keep
  past := by
    intro q loaded hq
    by_cases heq : q = tx
    · obtain rfl : c.state.row = loaded := by simpa [RunRow.put, heq] using hq
      exact ⟨id, h.promised.settled, fun _ => rfl⟩
    · exact h.past q loaded (by simpa [RunRow.put, heq] using hq)
  locked := by
    intro q hq
    by_cases heq : q = tx
    · simp [RunRow.put, heq]
    · obtain rfl | rfl := hholder
      · simpa [RunRow.put, heq] using h.locked q hq
      · exact absurd (Option.some.inj hq).symm heq

/-- A transaction that ends without a write. -/
theorem Sound.close (h : Sound c) : Sound ⟨c.state.close tx, c.events⟩ where
  promised := h.promised.keep
  past := by
    intro q loaded hq
    by_cases heq : q = tx
    · simp [RunRow.close, heq] at hq
    · exact h.past q loaded (by simpa [RunRow.close, heq] using hq)
  locked := by
    intro q hq
    have hold : c.state.holder = some q ∧ q ≠ tx := by
      by_cases hholder : c.state.holder = some tx
      · simp [RunRow.close, hholder] at hq
      · have hq' : c.state.holder = some q := by simpa [RunRow.close, hholder] using hq
        exact ⟨hq', fun heq => hholder (heq ▸ hq')⟩
    simpa [RunRow.close, hold.2] using h.locked q hold.1

/-- A write of the lease by a transaction that nobody locks out. -/
theorem EndsOnce.lease (h : EndsOnce c) (hstatus : row.status = c.state.row.status)
    (hended : row.endedAt = c.state.row.endedAt)
    (hnames : ∀ s, row.completedAs s = c.state.row.completedAs s)
    (howner : row.status.terminal = true → row.leaseOwner = none)
    (hexpires : row.status.terminal = true → row.leaseExpiresAt = none) :
    EndsOnce ⟨⟨row, opened, holder⟩, c.events⟩ where
  edges := h.edges
  current := by
    show (statuses c).getLast? = some row.status
    rw [h.current, hstatus]
  final := h.final
  once := by
    show completions c = if row.status.terminal then [row.completedAs row.status] else []
    rw [h.once, hstatus, hnames]
  settled := ⟨by rw [hended, hstatus]; exact h.settled.ended, howner, hexpires⟩

/-- In a history that follows the table, nothing comes after a terminal status. -/
theorem final_of_edges {l before after : List AgentRunStatus} {s : AgentRunStatus}
    (h : l.IsChain Edge) (hl : l = before ++ s :: after) (hterm : s.terminal = true) :
    after = [] := by
  cases after with
  | nil => rfl
  | cons b after =>
    have hchain : (before ++ s :: b :: after).IsChain Edge := hl ▸ h
    have hedge : Edge s b := ((List.isChain_append_cons_cons.mp hchain).2).1
    exact absurd hterm (by rw [edge_from_open hedge]; decide)

section
variable (events : List RunEvent) (s : RunRow) (toStatus : AgentRunStatus)
    (published : List RunCompleted)
include events s toStatus published

theorem statuses_moved :
    statuses ⟨s, events ++ (.status toStatus :: published.map .completed)⟩ =
      statuses ⟨s, events⟩ ++ [toStatus] := by
  have hnone : (published.map RunEvent.completed).filterMap RunEvent.status? = [] := by
    rw [List.filterMap_map]
    exact List.filterMap_eq_nil_iff.mpr fun _ _ => rfl
  simp [statuses, RunEvent.status?, hnone]

theorem completions_moved :
    completions ⟨s, events ++ (.status toStatus :: published.map .completed)⟩ =
      completions ⟨s, events⟩ ++ published := by
  have hsome : (published.map RunEvent.completed).filterMap RunEvent.completed? = published := by
    rw [List.filterMap_map]
    exact List.filterMap_some
  simp only [completions, List.filterMap_append, List.filterMap_cons, RunEvent.completed?, hsome]

end

variable {now : Time} {loaded new : AgentRun} {toStatus : AgentRunStatus}
  {published : List RunCompleted}

section
variable (h : EndsOnce c) (hpast : Past c.state.row loaded) (hedge : Edge loaded.status toStatus)
    (hmoved : Moved now loaded toStatus new published)
include h hpast hedge hmoved

theorem EndsOnce.move (hin : NotOvertaken loaded c.state.row toStatus) :
    EndsOnce ⟨⟨flush loaded new c.state.row, opened, holder⟩,
      c.events ++ (.status toStatus :: published.map .completed)⟩ := by
  obtain ⟨hstatus, hended⟩ := flush_moved c.state.row hedge hpast.settled hmoved
  have hedge' : Edge c.state.row.status toStatus :=
    (edge_iff hedge hpast.pending).mpr ⟨hin.open_, hin.first, hin.unpaused⟩
  -- the move is an edge from the status of the row as it is now, not as it was loaded
  have hchain : (statuses c ++ [toStatus]).IsChain Edge := by
    refine List.isChain_append.mpr ⟨h.edges, List.isChain_singleton _, ?_⟩
    intro a ha b hb
    obtain rfl : c.state.row.status = a := by simpa [h.current] using ha
    obtain rfl : toStatus = b := by simpa using hb
    exact hedge'
  have hrow : (flush loaded new c.state.row).Settled := by
    refine ⟨?_, ?_, ?_⟩
    · rw [hended, hstatus]
      cases hterm : toStatus.terminal with
      | true => rfl
      | false => exact h.settled.ended.trans hin.open_
    · intro hterm
      rw [hstatus] at hterm
      show changed loaded.leaseOwner new.leaseOwner c.state.row.leaseOwner = none
      rw [hmoved.leaseOwner hterm]
      exact changed_none (hin.leaseOwner hterm)
    · intro hterm
      rw [hstatus] at hterm
      show changed loaded.leaseExpiresAt new.leaseExpiresAt c.state.row.leaseExpiresAt = none
      rw [hmoved.leaseExpiresAt hterm]
      exact changed_none (hin.leaseExpiresAt hterm)
  refine ⟨?_, ?_, ?_, ?_, hrow⟩
  · rw [statuses_moved]
    exact hchain
  · rw [statuses_moved, List.getLast?_concat]
    exact congrArg some hstatus.symm
  · intro before s after hsplit
    rw [statuses_moved] at hsplit
    exact final_of_edges hchain hsplit
  · show completions _ = if (flush loaded new c.state.row).status.terminal then
      [c.state.row.completedAs (flush loaded new c.state.row).status] else []
    -- an open run has published no end yet
    have hnone : completions c = [] := by
      rw [h.once, hin.open_]
      rfl
    rw [completions_moved, hstatus, hmoved.published, hpast.names]
    exact congrArg (· ++ _) hnone

theorem EndsOnce.late
    (hbroken : EndsOnce ⟨⟨flush loaded new c.state.row, opened, holder⟩, c.events ++ (.status toStatus :: published.map .completed)⟩) :
    NotOvertaken loaded c.state.row toStatus := by
  have hchain := hbroken.edges
  rw [statuses_moved] at hchain
  have hedge' : Edge c.state.row.status toStatus :=
    (List.isChain_append.mp hchain).2.2 _ (by exact h.current) _ rfl
  obtain ⟨hopen, hfirst, hunpaused⟩ := (edge_iff hedge hpast.pending).mp hedge'
  have hstatus := (flush_moved c.state.row hedge hpast.settled hmoved).1
  refine ⟨hopen, hfirst, hunpaused, ?_, ?_⟩
  · intro hterm hnone
    have hclear := hbroken.settled.leaseOwner (by rw [hstatus]; exact hterm)
    have hkept : changed loaded.leaseOwner new.leaseOwner c.state.row.leaseOwner = none := hclear
    rwa [hmoved.leaseOwner hterm, hnone, changed_same] at hkept
  · intro hterm hnone
    have hclear := hbroken.settled.leaseExpiresAt (by rw [hstatus]; exact hterm)
    have hkept : changed loaded.leaseExpiresAt new.leaseExpiresAt c.state.row.leaseExpiresAt =
      none := hclear
    rwa [hmoved.leaseExpiresAt hterm, hnone, changed_same] at hkept

end

end Steps

/-! ## Runs -/

section Runs
variable {created : AgentRun} {c : Config RunRow RunEvent}

/-- What the flush of a released lease leaves in the row. -/
theorem flush_released (loaded current : AgentRun) :
    (flush loaded (releaseLease loaded) current).status = current.status ∧
      (flush loaded (releaseLease loaded) current).endedAt = current.endedAt :=
  ⟨changed_same, changed_same⟩

/-- What a commit can do: wait behind a lock, raise, release a lease, or move the row. -/
theorem commit_cases (created : AgentRun) (c : Config RunRow RunEvent) (tx : Nat) (now : Time)
    (call : Call) :
    (runMachine created).next c (.commit tx now call) = c ∨
    (runMachine created).next c (.commit tx now call) = ⟨c.state.close tx, c.events⟩ ∨
    ∃ loaded, c.state.opened tx = some loaded ∧ c.state.passes tx = true ∧
      call.fits (c.state.holder = some tx) = true ∧
      ((runMachine created).next c (.commit tx now call) =
          ⟨{ c.state.close tx with row := flush loaded (releaseLease loaded) c.state.row },
            c.events⟩ ∨
        ∃ toStatus new published, call.target loaded = some toStatus ∧
          Edge loaded.status toStatus ∧ Moved now loaded toStatus new published ∧
          (runMachine created).next c (.commit tx now call) =
            ⟨{ c.state.close tx with row := flush loaded new c.state.row },
              c.events ++ (.status toStatus :: published.map .completed)⟩) := by
  cases hopen : c.state.opened tx with
  | none =>
    left
    simp only [Machine.next, runMachine, runStep, hopen, List.append_nil]
  | some loaded =>
    by_cases hgo : call.fits (c.state.holder = some tx) = true ∧ c.state.passes tx = true
    · right
      simp only [Machine.next, runMachine, runStep, hopen, hgo.1, hgo.2, Bool.not_true,
        Bool.or_self, Bool.false_eq_true, if_false]
      cases happly : call.apply now loaded with
      | error e => exact .inl (by rw [List.append_nil])
      | ok called =>
        obtain ⟨new, published⟩ := called
        refine .inr ⟨loaded, rfl, trivial, trivial, ?_⟩
        obtain ⟨toStatus, htarget, hedge, hmoved⟩ | ⟨-, rfl, rfl⟩ := apply_ok happly
        · refine .inr ⟨toStatus, new, published, htarget, hedge, hmoved, ?_⟩
          have hne : ¬toStatus = loaded.status := edge_ne hedge
          simp only [hmoved.status, hne, if_false, List.singleton_append]
        · refine .inl ?_
          simp only [releaseLease, if_true, List.map_nil, List.append_nil]
    · left
      have hwait : (!call.fits (c.state.holder = some tx) || !c.state.passes tx) = true := by
        rw [Bool.or_eq_true, Bool.not_eq_true', Bool.not_eq_true']
        by_cases hfits : call.fits (c.state.holder = some tx) = true
        · exact .inr (Bool.eq_false_iff.mpr fun hp => hgo ⟨hfits, hp⟩)
        · exact .inl (Bool.eq_false_iff.mpr hfits)
      simp only [Machine.next, runMachine, runStep, hopen, hwait, if_true, List.append_nil]

/-- A commit that writes leaves the lock free. -/
theorem close_holder {tx : Nat} (h : c.state.passes tx = true) : (c.state.close tx).holder = none := by
  cases hholder : c.state.holder with
  | none => simp [RunRow.close, hholder]
  | some q =>
    obtain rfl : q = tx := by simpa [RunRow.passes, hholder] using h
    simp [RunRow.close, hholder]

/-- What is open after a write is in the past of the written row. -/
theorem Sound.written {row : AgentRun} {events : List RunEvent} {tx : Nat} (h : Sound c)
    (hpasses : c.state.passes tx = true)
    (hpending : row.status = .pending → c.state.row.status = .pending)
    (hnames : ∀ s, row.completedAs s = c.state.row.completedAs s)
    (hends : EndsOnce ⟨{ c.state.close tx with row }, events⟩) :
    Sound ⟨{ c.state.close tx with row }, events⟩ where
  promised := hends
  past := by
    intro q loaded hq
    have hold : c.state.opened q = some loaded := by
      by_cases heq : q = tx
      · simp [RunRow.close, heq] at hq
      · simpa [RunRow.close, heq] using hq
    have hpast := h.past q loaded hold
    exact ⟨fun hp => hpast.pending (hpending hp), hpast.settled, fun s => by rw [hpast.names, hnames]⟩
  locked := by
    intro q hq
    have hnone : (none : Option Nat) = some q := (close_holder hpasses).symm.trans hq
    cases hnone

theorem Sound.next (h : Sound c) (a : RunAct) (hin : InTime c a) :
    Sound ((runMachine created).next c a) := by
  cases a with
  | load tx =>
    simp only [Machine.next, runMachine, runStep, List.append_nil]
    split
    · exact h.put (.inl rfl)
    · exact h
  | select tx now =>
    simp only [Machine.next, runMachine, runStep, List.append_nil]
    split
    · exact h.put (.inr rfl)
    · exact h
  | abort tx =>
    simp only [Machine.next, runMachine, runStep, List.append_nil]
    exact h.close
  | heartbeat owner expiresAt =>
    simp only [Machine.next, runMachine, runStep, List.append_nil]
    split
    next hfree =>
      unfold heartbeat
      split
      next hheld =>
        -- a heartbeat is of a running run, so nothing that a terminal run promises is at stake
        have hopen : ¬c.state.row.status.terminal = true := by rw [hheld.2]; decide
        refine ⟨?_, ?_, fun q hq => absurd (hfree.symm.trans hq) (Option.some_ne_none q).symm⟩
        · exact h.promised.lease rfl rfl (fun _ => rfl) (fun ht => absurd ht hopen)
            (fun ht => absurd ht hopen)
        · intro q loaded hq
          have hpast := h.past q loaded hq
          exact ⟨hpast.pending, hpast.settled, hpast.names⟩
      next => exact h
    next => exact h
  | commit tx now call =>
    -- a commit is refused, ends without a write, gives the lease back, or moves the run
    obtain heq | heq | ⟨loaded, hopen, hpasses, hfits, heq | hmove⟩ :=
      commit_cases created c tx now call
    · rw [heq]
      exact h
    · rw [heq]
      exact h.close
    · rw [heq]
      obtain ⟨hstatus, hended⟩ := flush_released loaded c.state.row
      refine h.written hpasses (fun hp => hstatus ▸ hp) (fun _ => rfl) ?_
      refine h.promised.lease hstatus hended (fun _ => rfl) ?_ ?_
      · intro hterm
        exact changed_none fun _ => h.promised.settled.leaseOwner (hstatus ▸ hterm)
      · intro hterm
        exact changed_none fun _ => h.promised.settled.leaseExpiresAt (hstatus ▸ hterm)
    · obtain ⟨toStatus, new, published, htarget, hedge, hmoved, heq⟩ := hmove
      rw [heq]
      have hpast := h.past tx loaded hopen
      have hstatus := (flush_moved c.state.row hedge hpast.settled hmoved).1
      refine h.written hpasses ?_ (fun _ => rfl) ?_
      · intro hp
        exact absurd (hstatus.symm.trans hp) (edge_not_pending hedge)
      · exact h.promised.move hpast hedge hmoved (hin loaded toStatus hopen hfits hpasses htarget hedge)

/-- A step that keeps what is promised was in time. -/
theorem Sound.inTime (h : Sound c) (a : RunAct)
    (hends : EndsOnce ((runMachine created).next c a)) : InTime c a := by
  cases a with
  | commit tx now call =>
    intro loaded toStatus hopen hfits hpasses htarget hedge
    obtain ⟨new, published, happly, hmoved⟩ := apply_moves now htarget hedge
    have heq : (runMachine created).next c (.commit tx now call) =
        ⟨{ c.state.close tx with row := flush loaded new c.state.row },
          c.events ++ (.status toStatus :: published.map .completed)⟩ := by
      have hne : ¬toStatus = loaded.status := edge_ne hedge
      simp only [Machine.next, runMachine, runStep, hopen, hfits, hpasses, Bool.not_true,
        Bool.or_self, Bool.false_eq_true, if_false, happly, hmoved.status, hne,
        List.singleton_append]
    rw [heq] at hends
    exact h.promised.late (h.past tx loaded hopen) hedge hmoved hends
  | load _ => trivial
  | select _ _ => trivial
  | abort _ => trivial
  | heartbeat _ _ => trivial

/-- A run in which every commit is in time keeps what is promised in every state, and only
such a run does. -/
theorem Sound.run_iff (h : Sound c) (acts : List RunAct) :
    (runMachine created).Along InTime c acts ↔
      ∀ xs, xs <+: acts → EndsOnce ((runMachine created).run c xs) := by
  induction acts generalizing c with
  | nil =>
    refine ⟨fun _ xs hxs => ?_, fun _ => trivial⟩
    rw [List.prefix_nil.mp hxs]
    exact h.promised
  | cons a acts ih =>
    constructor
    · rintro ⟨hin, hrest⟩ xs hxs
      have hnext : Sound ((runMachine created).next c a) := h.next a hin
      cases xs with
      | nil => exact h.promised
      | cons b xs =>
        obtain ⟨rfl, htail⟩ := List.cons_prefix_cons.mp hxs
        exact (ih hnext).mp hrest xs htail
    · intro hall
      have hin : InTime c a := h.inTime a (hall [a] (List.prefix_iff_eq_append.mpr rfl))
      refine ⟨hin, (ih (h.next a hin)).mpr fun xs hxs => ?_⟩
      exact hall (a :: xs) (List.cons_prefix_cons.mpr ⟨rfl, hxs⟩)

end Runs

section Created
variable (id tenantId : Nat) (identitySub modelTier : String) (agentDefinitionId : Option Nat)
  (workRef : Option String) (policy : InFlightPolicy)

/-- The history of a run that `create_run` inserts. -/
abbrev runHistory : Machine RunRow RunAct RunEvent :=
  runMachine (createRun id tenantId identitySub modelTier agentDefinitionId workRef policy)

theorem sound_created :
    Sound (runHistory id tenantId identitySub modelTier agentDefinitionId workRef policy).begin_ where
  promised :=
    { edges := List.isChain_singleton _
      current := rfl
      final := fun _ _ _ => final_of_edges (List.isChain_singleton _)
      once := rfl
      settled := ⟨rfl, fun _ => rfl, fun _ => rfl⟩ }
  past := fun _ _ h => by cases h
  locked := fun _ h => by cases h

/-- An agent run ends exactly once, in every committed state of its history, if and only if
no commit that moves it was overtaken. -/
theorem ends_once_iff_not_overtaken (acts : List RunAct) :
    let M := runHistory id tenantId identitySub modelTier agentDefinitionId workRef policy
    M.Along InTime M.begin_ acts ↔ ∀ xs, xs <+: acts → EndsOnce (M.after xs) :=
  (sound_created id tenantId identitySub modelTier agentDefinitionId workRef policy).run_iff acts

end Created

/-- The loop finishes while an operator cancels: both loaded the running row. -/
def finishAgainstCancel : List RunAct :=
  [.load 0, .commit 0 10 (.start "anthropic" "opus" (some ("worker", 100))),
    .load 1, .load 2, .commit 2 20 (.cancel .operator), .commit 1 21 (.succeed [] none (some 1) none)]

/-- The cancelled run is overwritten as succeeded, and its end is published twice. -/
theorem late_success_replaces_cancel :
    let c := (runHistory 7 1 "agent" "standard" none none .failIntoAudit).after finishAgainstCancel
    ¬EndsOnce c ∧ c.state.row.status = .succeeded ∧
      completions c = [⟨7, 1, .cancelled, none, none⟩, ⟨7, 1, .succeeded, none, none⟩] := by
  refine ⟨fun h => ?_, by decide, by decide⟩
  have hedges := h.edges
  revert hedges
  decide

end Meho.Agent
