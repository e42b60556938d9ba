import Meho.Runner.WorkItem
import Meho.Scheduler.Loop

/- One tick of the scheduler and what it does with every claimed trigger (scheduler/loop.py,
scheduler/cron.py).

The triggers of a tick share a session. What a trigger's handling raises is caught, logged and
rolled back; a rollback of an open transaction expires the rows that were loaded in it, and
`readsExpired` says whether their attributes can still be read. A handling that raises before
its commit leaves its trigger due, with nothing counted. `tick_progress_iff` says which ones do
not.

croniter and zoneinfo are parameters (`Croniter`), as is all that the lookups, the statements
and the agent's run give (`Outside`). Other replicas may write between two handlings. The texts
of logs and skips are left out.

Correspondence: `advance_cron_trigger` ↔ `nextOfTrigger` and `writeThenDispatch`; what
is not listed keeps its name. -/
namespace Meho.Scheduler
open Meho.Lib
open Runner (isSpace)

/-! ## The next fire -/

inductive ZoneInfoError where
  | notFound
  | other (message : String)
  deriving DecidableEq, Repr

inductive FireError where
  | invalidCronExpression (expr : String)
  | invalidTimezone (name : String)
  | other (message : String)
  deriving DecidableEq, Repr

/-- croniter and zoneinfo. -/
structure Croniter (Tz : Type) where
  isValid : String → Bool
  getNext : String → Time → Tz → Except String Time
  zoneInfo : String → Except ZoneInfoError Tz
  utc : Tz

/-- The next match is after the instant it is asked for. -/
def Croniter.Strict {Tz : Type} (c : Croniter Tz) : Prop :=
  ∀ expr base tz next, c.getNext expr base tz = .ok next → base < next

def isFiveFieldExpr (expr : String) : Bool :=
  ((expr.toList.splitOnP isSpace).filter (· ≠ [])).length = 5

section Cron
variable {Tz : Type} (c : Croniter Tz)

def resolveTimezone (name : String) : Except FireError Tz :=
  if name = "" ∨ name = "UTC" then .ok c.utc
  else
    match c.zoneInfo name with
    | .ok tz => .ok tz
    | .error .notFound => .error (.invalidTimezone name)
    | .error (.other message) => .error (.other message)

def nextFireAfter (expr : String) (base : Time) (timezone : String) : Except FireError Time :=
  if ! isFiveFieldExpr expr || ! c.isValid expr then .error (.invalidCronExpression expr)
  else
    match resolveTimezone c timezone with
    | .error e => .error e
    | .ok tz =>
      match c.getNext expr base tz with
      | .error message => .error (.other message)
      | .ok next => .ok next

/-- The instant that a cron trigger is advanced to; none without an expression. -/
def nextOfTrigger (row : ScheduledTrigger) (fireInstant : Time) : Except FireError (Option Time) :=
  match row.cronExpr with
  | none => .ok none
  | some expr => (nextFireAfter c expr fireInstant row.timezone).map some

end Cron

/-! ## The session -/

/-- The session of a tick: the table, what is written and not committed, whether a transaction is
 open, and whether the loaded rows are expired. -/
structure Session where
  committed : TriggerDb
  pending : TriggerDb → TriggerDb
  inTransaction : Bool
  expired : Bool

namespace Session

/-- The table as the session sees it. -/
def view (s : Session) : TriggerDb := s.pending s.committed

/-- A statement that raises leaves its transaction open. -/
def statement (s : Session) (raises : Bool) (f : TriggerDb → TriggerDb) : Except Session Session :=
  if raises then .error { s with inTransaction := true }
  else .ok { s with pending := f ∘ s.pending, inTransaction := true }

def commit (s : Session) : Session :=
  { s with committed := s.view, pending := id, inTransaction := false }

def rollback (s : Session) : Session :=
  { s with pending := id, inTransaction := false, expired := s.expired || s.inTransaction }

end Session

/-! ## One trigger -/

inductive CredentialsError where
  | unresolved
  | other (message : String)
  deriving DecidableEq, Repr

inductive SkipReason where
  | definitionMissing
  | definitionDisabled
  | credentialsUnresolved
  deriving DecidableEq, Repr

/-- How the agent's run ends for the scheduler. -/
inductive Invoked where
  | refused
  | tokenGrantFailed
  | ran
  | raises (message : String)
  deriving DecidableEq, Repr

/-- What the turn of a trigger gets from outside. -/
structure Outside where
  /-- The definition's `enabled`, if there is a definition. -/
  definition : Except String (Option Bool)
  credentials : Except CredentialsError Unit
  /-- A statement or commit of the turn raises. -/
  databaseRaises : Bool
  invoked : Invoked
  /-- The pod got its stop signal before the turn, or by its preparation. -/
  stopBefore : Bool
  stopPrepared : Bool
  /-- What other replicas have written since the last turn. -/
  others : TriggerDb → TriggerDb

/-- Whether a claimed trigger goes on to its fire. -/
inductive Preparation where
  | prepared
  | skip (reason : SkipReason)
  deriving DecidableEq, Repr

def prepareInvocation (out : Outside) : Except String Preparation :=
  match out.definition with
  | .error message => .error message
  | .ok none => .ok (.skip .definitionMissing)
  | .ok (some false) => .ok (.skip .definitionDisabled)
  | .ok (some true) =>
    match out.credentials with
    | .error .unresolved => .ok (.skip .credentialsUnresolved)
    | .error (.other message) => .error message
    | .ok () => .ok .prepared

/-- What becomes of a claimed trigger. -/
inductive Outcome where
  | advanced (next : Time)
  | fired
  | parked
  | skipped
  /-- Its conditional write matched no row. -/
  | lost
  /-- A cron trigger without an expression. -/
  | passedOver
  | left
  deriving DecidableEq, Repr

/-- The end of a handling: what is done, and the value returned or an exception. -/
structure Fire where
  session : Session
  outcome : Option Outcome
  ended : Except Unit Bool

def raised (s : Session) : Fire := ⟨s, none, .error ()⟩

def dispatchInvocation : Invoked → Except Unit Bool
  | .refused | .tokenGrantFailed => .ok false
  | .ran => .ok true
  | .raises _ => .error ()

/-- A write with its commit, which ends a turn. -/
def writeAndCommit (s : Session) (out : Outside) (f : TriggerDb → TriggerDb) (outcome : Outcome) :
    Fire :=
  match s.statement out.databaseRaises f with
  | .error s => raised s
  | .ok s => ⟨s.commit, some outcome, .ok false⟩

/-- The conditional write on the claimed row, its commit and then the run. -/
def writeThenDispatch (s : Session) (out : Outside) (row : ScheduledTrigger)
    (f : ScheduledTrigger → ScheduledTrigger) (outcome : Outcome) : Fire :=
  match s.statement out.databaseRaises id with
  | .error s => raised s
  | .ok s =>
    match writeClaimed s.view row f with
    | none => ⟨s, some .lost, .ok false⟩
    | some db =>
      ⟨{ s with pending := fun _ => db }.commit, some outcome, dispatchInvocation out.invoked⟩

/-- The preparation that both kinds share, and the end of a streak of skips. -/
def prepareThen (s : Session) (out : Outside) (row : ScheduledTrigger) (fire : Session → Fire) :
    Fire :=
  match prepareInvocation out with
  | .error _ => raised s
  | .ok (.skip _) => writeAndCommit s out (recordSkip · row) .skipped
  | .ok .prepared =>
    if out.stopPrepared then ⟨s, some .left, .ok false⟩
    else if 0 < row.skipCount then
      match s.statement out.databaseRaises (clearSkipState · row.id) with
      | .error s => raised s
      | .ok s => fire s
    else fire s

section Tick
variable {Tz : Type} (c : Croniter Tz) (now : Time)

def fireCron (s : Session) (out : Outside) (row : ScheduledTrigger) : Fire :=
  prepareThen s out row fun s =>
    match nextOfTrigger c row now with
    | .error (.invalidCronExpression _) => writeAndCommit s out (parkTrigger · row.id) .parked
    | .error _ => raised s
    | .ok none => ⟨s, some .passedOver, .ok false⟩
    | .ok (some next) =>
      writeThenDispatch s out row (ScheduledTrigger.advanced next now) (.advanced next)

def fireOneOff (s : Session) (out : Outside) (row : ScheduledTrigger) : Fire :=
  prepareThen s out row fun s =>
    writeThenDispatch s out row (ScheduledTrigger.markedFired now) .fired

/-- What the loop tries for one row. -/
def handleRow (s : Session) (out : Outside) (row : ScheduledTrigger) : Fire :=
  match row.kind with
  | .cron => fireCron c now s out row
  | .oneOff => fireOneOff now s out row
  | .event => writeAndCommit s out (parkTrigger · row.id) .parked

/-! ## The tick -/

/-- The turn of a claimed row, with the table it leaves. -/
structure Turn where
  row : ScheduledTrigger
  outcome : Option Outcome
  after : TriggerDb

structure TickResult where
  session : Session
  turns : List Turn
  fires : Nat
  raised : Bool

/-- The session behind a turn, rolled back after an exception. -/
def Fire.left (fire : Fire) : Session :=
  match fire.ended with
  | .ok _ => fire.session
  | .error _ => fire.session.rollback

def Fire.count (fire : Fire) : Nat :=
  match fire.ended with
  | .ok true => 1
  | _ => 0

variable (outside : ScheduledTrigger → Outside) (readsExpired : Bool)

def tickRows : Session → List ScheduledTrigger → TickResult
  | s, [] => ⟨s, [], 0, false⟩
  | s, row :: rows =>
    let out := outside row
    let s := { s with committed := out.others s.committed }
    -- `row.kind` raises, and so does the `row.id` that is logged for it
    if s.expired && ! readsExpired then ⟨s, [], 0, true⟩
    else if out.stopBefore then ⟨s, [], 0, false⟩
    else
      let fire := handleRow c now s out row
      let rest := tickRows fire.left rows
      { rest with
        turns := ⟨row, fire.outcome, fire.left.committed⟩ :: rest.turns
        fires := fire.count + rest.fires }

/-- The claim opens the session's first transaction. -/
def claimSession (db : TriggerDb) : Session := ⟨db, id, true, false⟩

/-- The rows a tick goes through. -/
def tickClaims (db : TriggerDb) (gotLock : Bool) (locked : List Nat) : List ScheduledTrigger :=
  if gotLock then claimDueTriggers db now locked else []

def runOneTick (db : TriggerDb) (draining gotLock : Bool) (locked : List Nat) : TickResult :=
  if draining then ⟨claimSession db, [], 0, false⟩
  else tickRows c now outside readsExpired (claimSession db) (tickClaims now db gotLock locked)

end Tick

/-! ## Progress -/

section Progress
variable {Tz : Type} {c : Croniter Tz} {now : Time} {out : Outside} {row : ScheduledTrigger}
  {s : Session}

/-- The trigger is advanced past the instant, fired, parked, its skips counted, or the write was
lost to another replica. -/
def Outcome.Moves (now : Time) : Outcome → Prop
  | .advanced next => now < next
  | .fired | .parked | .skipped | .lost => True
  | .passedOver | .left => False

/-- No row of the trigger stands in the table as it was claimed. -/
def Moved (now : Time) (claimed : ScheduledTrigger) (db : TriggerDb) : Prop :=
  ∀ r ∈ db, r.id = claimed.id → r.status ≠ .active ∨ (∃ next, r.nextFireAt = some next ∧ now < next) ∨
    claimed.skipCount < r.skipCount ∨ r.nextFireAt ≠ claimed.nextFireAt

/-- **What a trigger's handling has to get through**: no statement raises, the preparation does
not, and a prepared cron trigger has an expression that is invalid or has a next match in its
timezone. -/
def Handles (c : Croniter Tz) (now : Time) (out : Outside) (row : ScheduledTrigger) : Prop :=
  out.databaseRaises = false ∧
    (row.kind = .event ∨ ∃ preparation, prepareInvocation out = .ok preparation ∧
      (preparation = .prepared → row.kind = .cron → ∃ expr, row.cronExpr = some expr ∧
        ((∃ e, nextFireAfter c expr now row.timezone = .error (.invalidCronExpression e)) ∨
          ∃ next, nextFireAfter c expr now row.timezone = .ok next)))

/-- What is not committed leaves status and instant of every row. -/
def Session.Keeps (s : Session) : Prop :=
  ∀ db, ∀ r ∈ db, ∃ r' ∈ s.pending db, r'.id = r.id ∧ r'.status = r.status ∧
    r'.nextFireAt = r.nextFireAt

/-- The session between two turns, with rows that can be read. -/
structure Session.Ready (s : Session) : Prop where
  keeps : s.Keeps
  fresh : s.expired = false

/-- A turn as it should be. -/
structure Fire.Progress (now : Time) (row : ScheduledTrigger) (fire : Fire) : Prop where
  outcome : ∃ outcome, fire.outcome = some outcome ∧ outcome.Moves now
  moved : Moved now row fire.session.committed
  ready : fire.session.Ready
  ended : fire.ended = .error () → fire.session.inTransaction = false

/-! ## What the writes leave -/

variable {f : ScheduledTrigger → ScheduledTrigger}

theorem mem_updateTrigger {db : TriggerDb} {id : Nat} {r : ScheduledTrigger}
    (hr : r ∈ updateTrigger db id f) (hid : r.id = id) : ∃ r' ∈ db, r'.id = id ∧ r = f r' := by
  obtain ⟨r', hmem, heq⟩ := List.mem_map.mp hr
  split at heq
  · rename_i hid'
    exact ⟨r', hmem, hid', heq.symm⟩
  · rename_i hid'
    rw [heq] at hid'
    exact absurd hid hid'

theorem moved_parkTrigger (db : TriggerDb) : Moved now row (parkTrigger db row.id) := by
  intro r hr hid
  obtain ⟨r', -, -, rfl⟩ := mem_updateTrigger hr hid
  exact .inl nofun

theorem moved_recordSkip (db : TriggerDb) : Moved now row (recordSkip db row) := by
  intro r hr hid
  obtain ⟨r', -, -, rfl⟩ := mem_updateTrigger hr hid
  split
  · exact .inr (.inr (.inl (Nat.lt_succ_self _)))
  · rename_i hactive
    exact .inl hactive

theorem not_matchesClaim {claimed r : ScheduledTrigger} (h : ¬ claimed.matchesClaim r = true)
    (hid : r.id = claimed.id) : r.status ≠ .active ∨ r.nextFireAt ≠ claimed.nextFireAt := by
  by_contra hboth
  rw [not_or, not_not, not_not] at hboth
  exact h (by simp [ScheduledTrigger.matchesClaim, hid, hboth])

theorem moved_writeClaimed {db db' : TriggerDb}
    (hf : ∀ r, (f r).status ≠ .active ∨ ∃ next, (f r).nextFireAt = some next ∧ now < next)
    (h : writeClaimed db row f = some db') : Moved now row db' := by
  unfold writeClaimed Agenda.cas at h
  split at h
  · cases h
    intro r hr hid
    obtain ⟨r', hmem, rfl⟩ := List.mem_map.mp hr
    by_cases hmatch : row.matchesClaim r' = true
    · rw [if_pos hmatch]
      rcases hf r' with hstatus | hnext
      · exact .inl hstatus
      · exact .inr (.inl hnext)
    · rw [if_neg hmatch] at hid ⊢
      rcases not_matchesClaim hmatch hid with hstatus | hnext
      · exact .inl hstatus
      · exact .inr (.inr (.inr hnext))
  · cases h

theorem moved_lost (hkeeps : s.Keeps) (h : writeClaimed s.view row f = none) :
    Moved now row s.committed := by
  unfold writeClaimed Agenda.cas at h
  split at h
  · cases h
  · rename_i hany
    intro r hr hid
    obtain ⟨r', hr', hid', hstatus, hnext⟩ := hkeeps s.committed r hr
    have hmatch : ¬ row.matchesClaim r' = true := fun hmatch =>
      hany (List.any_eq_true.mpr ⟨r', hr', hmatch⟩)
    rcases not_matchesClaim hmatch (hid'.trans hid) with hactive | hother
    · exact .inl (hstatus ▸ hactive)
    · exact .inr (.inr (.inr (hnext ▸ hother)))

theorem Session.Keeps.clear (h : s.Keeps) (id : Nat) {raises : Bool} {s' : Session}
    (hs : s.statement raises (clearSkipState · id) = .ok s') : s'.Keeps := by
  unfold Session.statement at hs
  split at hs
  · cases hs
  · cases hs
    intro db r hr
    obtain ⟨r', hr', hid, hstatus, hnext⟩ := h db r hr
    refine ⟨_, List.mem_map_of_mem hr', ?_⟩
    split
    · exact ⟨hid, hstatus, hnext⟩
    · exact ⟨hid, hstatus, hnext⟩

theorem Session.Keeps.of_pending_id (h : s.pending = id) : s.Keeps := by
  intro db r hr
  rw [h]
  exact ⟨r, hr, rfl, rfl, rfl⟩

/-! ## One turn -/

theorem nextFireAfter_strict (hcron : c.Strict) {expr timezone : String} {base next : Time}
    (h : nextFireAfter c expr base timezone = .ok next) : base < next := by
  unfold nextFireAfter at h
  split at h
  · cases h
  · split at h
    · cases h
    · rename_i tz _
      split at h
      · cases h
      · rename_i later hlater
        cases h
        exact hcron _ _ _ _ hlater

theorem Session.statement_ok (hdb : out.databaseRaises = false) (f : TriggerDb → TriggerDb) :
    s.statement out.databaseRaises f = .ok { s with pending := f ∘ s.pending, inTransaction := true } := by
  rw [Session.statement, hdb]
  rfl

variable {outcome : Outcome}

section
variable (hdb : out.databaseRaises = false) (hs : s.Ready)
include hdb hs

theorem writeAndCommit_progress {f : TriggerDb → TriggerDb} (hf : ∀ db, Moved now row (f db))
    (houtcome : outcome.Moves now) : (writeAndCommit s out f outcome).Progress now row := by
  unfold writeAndCommit
  rw [Session.statement_ok hdb]
  exact ⟨⟨outcome, rfl, houtcome⟩, hf _, ⟨.of_pending_id rfl, hs.fresh⟩, nofun⟩

theorem writeThenDispatch_progress
    (hf : ∀ r, (f r).status ≠ .active ∨ ∃ next, (f r).nextFireAt = some next ∧ now < next)
    (houtcome : outcome.Moves now) : (writeThenDispatch s out row f outcome).Progress now row := by
  unfold writeThenDispatch
  rw [Session.statement_ok hdb]
  dsimp only
  split
  · rename_i hlost
    exact ⟨⟨.lost, rfl, trivial⟩, moved_lost hs.keeps hlost, ⟨hs.keeps, hs.fresh⟩, nofun⟩
  · rename_i db hwritten
    exact ⟨⟨outcome, rfl, houtcome⟩, moved_writeClaimed hf hwritten, ⟨.of_pending_id rfl, hs.fresh⟩,
      fun _ => rfl⟩

theorem prepareThen_progress (hstop : out.stopPrepared = false) {preparation : Preparation}
    (hprepare : prepareInvocation out = .ok preparation) {fire : Session → Fire}
    (hfire : preparation = .prepared → ∀ s' : Session, s'.Ready → (fire s').Progress now row) :
    (prepareThen s out row fire).Progress now row := by
  unfold prepareThen
  rw [hprepare]
  cases preparation with
  | skip reason => exact writeAndCommit_progress hdb hs moved_recordSkip trivial
  | prepared =>
    dsimp only
    rw [hstop]
    by_cases hskips : 0 < row.skipCount
    · have hclear := Session.statement_ok (s := s) hdb (clearSkipState · row.id)
      simp only [hskips, if_true, hclear]
      exact hfire rfl _ ⟨hs.keeps.clear row.id hclear, hs.fresh⟩
    · simp only [hskips, if_false]
      exact hfire rfl s hs

end

/-- A trigger that gets through moves, and leaves a session for the next one. -/
theorem handleRow_progress (hcron : c.Strict) (hs : s.Ready) (hstop : out.stopPrepared = false)
    (h : Handles c now out row) : (handleRow c now s out row).Progress now row := by
  obtain ⟨hdb, hrow⟩ := h
  unfold handleRow
  cases hkind : row.kind with
  | event => exact writeAndCommit_progress hdb hs moved_parkTrigger trivial
  | oneOff =>
    obtain hevent | ⟨preparation, hprepare, -⟩ := hrow
    · rw [hkind] at hevent
      cases hevent
    · refine prepareThen_progress hdb hs hstop hprepare fun _ s' hs' => ?_
      exact writeThenDispatch_progress hdb hs' (fun r => .inl (by simp [ScheduledTrigger.markedFired])) trivial
  | cron =>
    obtain hevent | ⟨preparation, hprepare, hnext⟩ := hrow
    · rw [hkind] at hevent
      cases hevent
    · refine prepareThen_progress hdb hs hstop hprepare fun hprepared s' hs' => ?_
      obtain ⟨expr, hexpr, ⟨e, herror⟩ | ⟨next, hok⟩⟩ := hnext hprepared hkind
      · simp only [nextOfTrigger, hexpr, herror, Except.map]
        exact writeAndCommit_progress hdb hs' moved_parkTrigger trivial
      · have hlater : now < next := nextFireAfter_strict hcron hok
        simp only [nextOfTrigger, hexpr, hok, Except.map]
        exact writeThenDispatch_progress hdb hs' (fun _ => .inr ⟨next, rfl, hlater⟩) hlater

theorem writeAndCommit_outcome {f : TriggerDb → TriggerDb} {outcome' : Outcome}
    (h : (writeAndCommit s out f outcome).outcome = some outcome') :
    out.databaseRaises = false := by
  unfold writeAndCommit Session.statement at h
  cases hdb : out.databaseRaises with
  | false => rfl
  | true =>
    rw [hdb] at h
    cases h

theorem writeThenDispatch_outcome {outcome' : Outcome}
    (h : (writeThenDispatch s out row f outcome).outcome = some outcome') :
    out.databaseRaises = false := by
  unfold writeThenDispatch Session.statement at h
  cases hdb : out.databaseRaises with
  | false => rfl
  | true =>
    rw [hdb] at h
    cases h

theorem prepareThen_outcome {fire : Session → Fire}
    (h : (prepareThen s out row fire).outcome = some outcome) (hmoves : outcome.Moves now) :
    ∃ preparation, prepareInvocation out = .ok preparation ∧
      (out.databaseRaises = false ∧ preparation ≠ .prepared ∨
        preparation = .prepared ∧ ∃ s', (fire s').outcome = some outcome) := by
  unfold prepareThen at h
  cases hprepare : prepareInvocation out with
  | error message =>
    rw [hprepare] at h
    cases h
  | ok preparation =>
    rw [hprepare] at h
    refine ⟨preparation, rfl, ?_⟩
    cases preparation with
    | skip reason => exact .inl ⟨writeAndCommit_outcome h, nofun⟩
    | prepared =>
      refine .inr ⟨rfl, ?_⟩
      dsimp only at h
      split at h
      · cases h
        exact absurd hmoves id
      · split at h
        · split at h
          · cases h
          · exact ⟨_, h⟩
        · exact ⟨_, h⟩

theorem handles_of_outcome (h : (handleRow c now s out row).outcome = some outcome)
    (hmoves : outcome.Moves now) : Handles c now out row := by
  unfold handleRow at h
  cases hkind : row.kind with
  | event =>
    rw [hkind] at h
    exact ⟨writeAndCommit_outcome h, .inl hkind⟩
  | oneOff =>
    rw [hkind] at h
    obtain ⟨preparation, hprepare, ⟨hdb, hskip⟩ | ⟨hprepared, s', hfire⟩⟩ :=
      prepareThen_outcome h hmoves
    · exact ⟨hdb, .inr ⟨preparation, hprepare, fun hprepared => absurd hprepared hskip⟩⟩
    · refine ⟨writeThenDispatch_outcome hfire, .inr ⟨preparation, hprepare, fun _ hcron => ?_⟩⟩
      rw [hkind] at hcron
      cases hcron
  | cron =>
    rw [hkind] at h
    obtain ⟨preparation, hprepare, ⟨hdb, hskip⟩ | ⟨hprepared, s', hfire⟩⟩ :=
      prepareThen_outcome h hmoves
    · exact ⟨hdb, .inr ⟨preparation, hprepare, fun hprepared => absurd hprepared hskip⟩⟩
    -- a cron trigger must have an expression, and a next time in a zone that resolves
    · unfold nextOfTrigger at hfire
      cases hexpr : row.cronExpr with
      | none =>
        rw [hexpr] at hfire
        cases hfire
        exact absurd hmoves id
      | some expr =>
        simp only [hexpr] at hfire
        cases hnext : nextFireAfter c expr now row.timezone with
        | ok next =>
          simp only [hnext, Except.map] at hfire
          exact ⟨writeThenDispatch_outcome hfire, .inr ⟨preparation, hprepare, fun _ _ =>
            ⟨expr, hexpr, .inr ⟨next, hnext⟩⟩⟩⟩
        | error e =>
          cases e with
          | invalidCronExpression e =>
            simp only [hnext, Except.map] at hfire
            exact ⟨writeAndCommit_outcome hfire, .inr ⟨preparation, hprepare, fun _ _ =>
              ⟨expr, hexpr, .inl ⟨e, hnext⟩⟩⟩⟩
          | invalidTimezone name =>
            simp only [hnext, Except.map] at hfire
            cases hfire
          | other message =>
            simp only [hnext, Except.map] at hfire
            cases hfire

/-! ## The whole tick -/

variable {outside : ScheduledTrigger → Outside} {readsExpired : Bool} {db : TriggerDb}

/-- The tick ends, every claimed trigger has its turn in it, and moves. -/
structure TickResult.Progress (now : Time) (claimed : List ScheduledTrigger)
    (result : TickResult) : Prop where
  ends : result.raised = false
  turns : result.turns.map (·.row) = claimed
  moves : ∀ turn ∈ result.turns,
    (∃ outcome, turn.outcome = some outcome ∧ outcome.Moves now) ∧ Moved now turn.row turn.after

theorem Fire.left_committed (fire : Fire) : fire.left.committed = fire.session.committed := by
  unfold Fire.left
  split
  · rfl
  · rfl

theorem Fire.Progress.left {fire : Fire} (h : fire.Progress now row) : fire.left.Ready := by
  unfold Fire.left
  split
  · exact h.ready
  · rename_i hended
    refine ⟨.of_pending_id rfl, ?_⟩
    rw [Session.rollback, h.ready.fresh, h.ended hended]
    rfl

theorem tickRows_progress (hcron : c.Strict)
    (hdrain : ∀ row, (outside row).stopBefore = false ∧ (outside row).stopPrepared = false)
    (hs : s.Ready) {rows : List ScheduledTrigger}
    (hrows : ∀ row ∈ rows, Handles c now (outside row) row) :
    (tickRows c now outside readsExpired s rows).Progress now rows := by
  induction rows generalizing s with
  | nil => exact ⟨rfl, rfl, fun _ hmem => absurd hmem List.not_mem_nil⟩
  | cons row rows ih =>
    have hturn : Session.Ready { s with committed := (outside row).others s.committed } :=
      ⟨hs.keeps, hs.fresh⟩
    have hfire := handleRow_progress hcron hturn (hdrain row).2 (hrows row List.mem_cons_self)
    have hrest := ih hfire.left fun r hr => hrows r (List.mem_cons_of_mem _ hr)
    have hreads : ¬ (s.expired && ! readsExpired) = true := by
      rw [hs.fresh]
      nofun
    have hstop : ¬ (outside row).stopBefore = true := by
      rw [(hdrain row).1]
      nofun
    unfold tickRows
    dsimp only
    rw [if_neg hreads, if_neg hstop]
    refine ⟨hrest.ends, congrArg (row :: ·) hrest.turns, ?_⟩
    intro turn hmem
    obtain rfl | hmem := List.mem_cons.mp hmem
    · refine ⟨hfire.outcome, ?_⟩
      rw [Fire.left_committed]
      exact hfire.moved
    · exact hrest.moves turn hmem

theorem handles_of_tickRows {rows : List ScheduledTrigger}
    (h : (tickRows c now outside readsExpired s rows).Progress now rows) :
    ∀ row ∈ rows, Handles c now (outside row) row := by
  induction rows generalizing s with
  | nil => exact fun _ hrow => absurd hrow List.not_mem_nil
  | cons row rows ih =>
    obtain ⟨hends, hturns, hmoves⟩ := h
    unfold tickRows at hends hturns hmoves
    dsimp only at hends hturns hmoves
    split at hends
    · cases hends
    · rename_i hreads
      rw [if_neg hreads] at hturns hmoves
      split at hends
      · rename_i hstop
        rw [if_pos hstop] at hturns
        cases hturns
      · rename_i hstop
        rw [if_neg hstop] at hturns hmoves
        intro r hr
        obtain rfl | hr := List.mem_cons.mp hr
        · obtain ⟨⟨outcome, houtcome, hmove⟩, -⟩ := hmoves _ List.mem_cons_self
          exact handles_of_outcome houtcome hmove
        · exact ih ⟨hends, (List.cons.inj hturns).2, fun turn hturn =>
            hmoves turn (List.mem_cons_of_mem _ hturn)⟩ r hr

/-- **A tick makes progress exactly when every claimed trigger gets through its handling.** A
timezone that does not resolve, or a cron trigger without an expression, is not got
through. -/
theorem tick_progress_iff (hcron : c.Strict)
    (hdrain : ∀ row, (outside row).stopBefore = false ∧ (outside row).stopPrepared = false)
    (gotLock : Bool) (locked : List Nat) :
    (runOneTick c now outside readsExpired db false gotLock locked).Progress now
        (tickClaims now db gotLock locked) ↔
      ∀ row ∈ tickClaims now db gotLock locked, Handles c now (outside row) row :=
  ⟨handles_of_tickRows, tickRows_progress hcron hdrain ⟨.of_pending_id rfl, rfl⟩⟩

end Progress

/-! ## A sample -/

/-- Every minute, in the timezones of one continent. -/
def sampleCroniter : Croniter String where
  isValid expr := expr = "* * * * *"
  getNext _ base _ := .ok ((base / 60 + 1) * 60)
  zoneInfo name := if name = "Europe/Berlin" then .ok name else .error .notFound
  utc := "UTC"

theorem sampleCroniter_strict : sampleCroniter.Strict := by
  intro expr base tz next h
  have hnext : (base / 60 + 1) * 60 = next := Except.ok.inj h
  have hlater : base < (base / 60 + 1) * 60 := Int.lt_mul_of_ediv_lt (by decide) (Int.lt_succ _)
  exact hnext ▸ hlater

/-- A definition is there, its credentials are, and its run goes through. -/
def sampleOutside (_ : ScheduledTrigger) : Outside :=
  ⟨.ok (some true), .ok (), false, .ran, false, false, id⟩

def cronTrigger (id : Nat) (timezone : String) (nextFireAt : Time) : ScheduledTrigger :=
  ⟨id, .cron, some "* * * * *", timezone, some nextFireAt, .active, none, 0⟩

theorem tick_progress_iff_sample :
    (runOneTick sampleCroniter 130 sampleOutside false [cronTrigger 1 "UTC" 60] false true []).Progress
        130 (tickClaims 130 [cronTrigger 1 "UTC" 60] true []) ↔
      ∀ row ∈ tickClaims 130 [cronTrigger 1 "UTC" 60] true [],
        Handles sampleCroniter 130 (sampleOutside row) row :=
  tick_progress_iff sampleCroniter_strict (fun _ => ⟨rfl, rfl⟩) true []

def staleTriggers : List ScheduledTrigger :=
  [cronTrigger 1 "America/Godthab" 60, cronTrigger 2 "Europe/Berlin" 120]

theorem staleTriggers_claimed : tickClaims 130 staleTriggers true [] = staleTriggers := by
  have hdue : staleTriggers.filter (fun row => row.isDue 130 && row.id ∉ []) = staleTriggers := by
    decide +kernel
  have hsorted : staleTriggers.mergeSort
      (fun a b => decide (a.nextFireAt.getD 130 ≤ b.nextFireAt.getD 130)) = staleTriggers :=
    List.mergeSort_of_pairwise (by decide +kernel)
  rw [tickClaims, if_pos rfl, claimDueTriggers, hdue, hsorted]
  rfl

/-- A timezone that zoneinfo does not know: the trigger stays due with nothing counted, and the
rollback keeps the next one from its turn. -/
theorem unknown_timezone_stalls :
    ¬ (runOneTick sampleCroniter 130 sampleOutside false staleTriggers false true []).Progress 130
        (tickClaims 130 staleTriggers true []) ∧
      (runOneTick sampleCroniter 130 sampleOutside false staleTriggers false true []).session.committed =
        staleTriggers ∧
      (runOneTick sampleCroniter 130 sampleOutside false staleTriggers false true []).raised = true := by
  simp only [runOneTick, staleTriggers_claimed]
  refine ⟨fun h => ?_, by decide +kernel, by decide +kernel⟩
  have hends : (tickRows sampleCroniter 130 sampleOutside false (claimSession staleTriggers)
      staleTriggers).raised = false := h.ends
  revert hends
  decide +kernel

end Meho.Scheduler
