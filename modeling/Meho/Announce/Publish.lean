import Meho.Announce.Rows
import Meho.Lib.History
import Meho.Lib.Parties
import Mathlib.Logic.Function.Basic

/- Publishing announcements in one tenant (broadcast/publisher.py).

A call first stores its step in one transaction. A `start` looks its retry key up; an
`update` or a `completion` locks the start row of its claim, looks the key up under the lock
and checks that the claim is open. Then the tenant's counter is raised, and with it locked
until the end of the transaction the row is inserted and committed. When a unique index
refuses the row, the call looks its key up once more. A second transaction delivers the
stored step: it locks the row, runs the script on the stream's server, which remembers what
it wrote under a marker, and records the entry on the row.

Every statement is a step, and the calls go on in any order. A statement that needs a lock
waits until it is free. INSERT and COMMIT are one step: until the commit nobody sees the
row, and every other call that would insert waits for the counter. A reply that is lost is
a step whose effect is there while the caller sees a failure. A crash, a cancellation or any
other failure of the database ends a call and frees its locks.

Correspondence: `_same_step` ↔ `sameStep`; `_find_by_idempotency_key` ↔ `findByKey`;
`_check_open_claim` ↔ `lockStart`, `lookUnderLock`, `checkCompleted`;
`_persist_agent_announcement` ↔ the places up to `CallAt.stored`; `_write_stream_entry_once`
↔ `runScript`; `_deliver` ↔ the places from `CallAt.stored` on. A counter row that is not
there yet counts as 0, and entry ids are numbered as they are written. -/
namespace Meho.Announce
open Meho.Lib

/-! ## Results and errors -/

inductive ClaimErrorCode where
  | claimNotFound
  | claimNotOwned
  | claimCompleted
  | idempotencyKeyReused
  deriving DecidableEq, Repr

namespace ClaimErrorCode

def code : ClaimErrorCode → String
  | .claimNotFound => "claim_not_found"
  | .claimNotOwned => "claim_not_owned"
  | .claimCompleted => "claim_completed"
  | .idempotencyKeyReused => "idempotency_key_reused"

def message : ClaimErrorCode → String
  | .claimNotFound => "no claim with this claim_id in this tenant"
  | .claimNotOwned => "only the claim's owner can update or complete it"
  | .claimCompleted => "this claim is already completed"
  | .idempotencyKeyReused => "this idempotency_key was already used for a different step"

end ClaimErrorCode

inductive PublishError where
  /-- `AnnouncementClaimError`. -/
  | claim (code : ClaimErrorCode)
  /-- `ValueError`: the event is not a trusted claim. -/
  | notTrusted
  | failed
  deriving DecidableEq, Repr

/-- What the insert step hands on to the delivery. -/
structure StoredStep where
  event : AgentAnnouncementEvent
  delivered : Bool
  seq : Option Nat
  replayed : Bool
  deriving DecidableEq, Repr

structure AnnouncementPublishResult where
  event : AgentAnnouncementEvent
  seq : Option Nat
  streamEntryId : Option Nat
  replayed : Bool
  deliveryPending : Bool
  deriving DecidableEq, Repr

/-! ## Lookups -/

/-- Whether a retry with the same key asks for the same step. -/
def sameStep (stored event : AgentAnnouncementEvent) : Bool :=
  stored.runId = event.runId && stored.phase = event.phase && stored.activity = event.activity &&
    stored.target = event.target && stored.targets = event.targets &&
    stored.scope = event.scope && stored.plannedOpClass = event.plannedOpClass &&
    stored.ttlMinutes = event.ttlMinutes && stored.workRef = event.workRef &&
    (event.phase = .start || stored.claimId = event.claimId)

/-- The row of an owner's key. -/
def AgentAnnouncement.hasKey (event : AgentAnnouncementEvent) (key : String)
    (r : AgentAnnouncement) : Bool :=
  r.event.ownerSub = event.ownerSub && r.idempotencyKey = some key

def findByKey (rows : List AgentAnnouncement) (event : AgentAnnouncementEvent)
    (key : Option String) : Except ClaimErrorCode (Option StoredStep) :=
  match key.bind fun key => rows.find? (·.hasKey event key) with
  | none => .ok none
  | some r =>
    if sameStep r.event event then
      .ok (some ⟨r.event, r.streamEntryId.isSome, r.seq, true⟩)
    else .error .idempotencyKeyReused

/-- A row of the claim in a phase. -/
def AgentAnnouncement.ofClaim (claimId : Option Nat) (phase : Phase) (r : AgentAnnouncement) :
    Bool :=
  r.event.claimId.isSome && r.event.claimId = claimId && r.event.phase = phase

/-- The unique indexes that a new row would violate with one that is there. -/
def AgentAnnouncement.conflicts (new r : AgentAnnouncement) : Bool :=
  r.event.eventId = new.event.eventId ||
    (new.event.ownerSub.isSome && r.event.ownerSub = new.event.ownerSub &&
      new.idempotencyKey.isSome && r.idempotencyKey = new.idempotencyKey) ||
    (new.event.phase = .start && r.ofClaim new.event.claimId .start) ||
    (new.event.phase = .completion && r.ofClaim new.event.claimId .completion) ||
    (new.seq.isSome && r.seq = new.seq)

/-! ## Calls -/

/-- Where one call stands. -/
inductive CallAt where
  | called
  /-- A `start` whose key has no row. -/
  | looked
  /-- The claim's start row is locked. -/
  | locked (start : Nat)
  /-- And the key has no row. -/
  | unkeyed (start : Nat)
  /-- And the claim has no completion. -/
  | opened (start : Nat)
  /-- The counter is locked; with the start row of an `update` or a `completion`. -/
  | numbered (start : Option Nat) (n : Nat)
  /-- A unique index refused the row. -/
  | collided
  | stored (step : StoredStep)
  /-- The stored row is locked and has no entry yet. -/
  | delivering (step : StoredStep)
  /-- The script answered: the entry, and whether it wrote it. -/
  | written (step : StoredStep) (entry : Nat) (wrote : Bool)
  | answered (result : AnnouncementPublishResult)
  | raised (error : PublishError)
  deriving DecidableEq, Repr

namespace CallAt

def holdsCounter : CallAt → Bool
  | .numbered .. => true
  | _ => false

/-- The start row that a step on a claim has locked. -/
def start? : CallAt → Option Nat
  | .locked start | .unkeyed start | .opened start => some start
  | .numbered start _ => start
  | _ => none

/-- The row that is locked. -/
def lockedRow : CallAt → Option Nat
  | .delivering step | .written step .. => some step.event.eventId
  | p => p.start?

end CallAt

/-- A publishing call under way. -/
structure Call where
  event : AgentAnnouncementEvent
  key : Option String
  place : CallAt
  deriving DecidableEq, Repr

/-- What a step of a publish leaves behind. -/
inductive PublishEvent where
  | inserted (call : Nat) (row : AgentAnnouncement)
  | appended (eventId : Nat)
  | markerExpired (eventId : Nat)
  deriving DecidableEq, Repr

/-- What became of a commit. -/
inductive Commit where
  | done
  /-- It was committed, and the reply was lost. -/
  | replyLost
  | rolledBack
  deriving DecidableEq, Repr

inductive PublishAction where
  | publish (event : AgentAnnouncementEvent) (key : Option String)
  /-- The next statement of a call that only reads or locks. -/
  | statement (call : Nat)
  | insert (call : Nat) (commit : Commit)
  | script (call : Nat) (outcome : Commit)
  | mark (call : Nat) (committed : Bool)
  | crash (call : Nat)
  | expireMarker (eventId : Nat)
  deriving DecidableEq, Repr

/-- The table, the stream and the calls under way. -/
structure Publishing where
  lastSeq : Nat
  rows : List AgentAnnouncement
  calls : List Call
  /-- The entry that each delivery marker remembers. -/
  markers : Nat → Option Nat
  /-- How many entries were written. -/
  entries : Nat

namespace Publishing

def counterFree (s : Publishing) : Bool := !s.calls.any (·.place.holdsCounter)

def rowFree (s : Publishing) (id : Nat) : Bool := !s.calls.any (·.place.lockedRow = some id)

/-- Call `i` goes on to `place`. -/
def goto (s : Publishing) (i : Nat) (c : Call) (place : CallAt) : Publishing :=
  { s with calls := Parties.moveOne s.calls i { c with place } }

/-! ### The first transaction -/

/-- What a lookup of the key makes of a call; `fresh` is where it goes without a row. -/
def looked (found : Except ClaimErrorCode (Option StoredStep)) (fresh : CallAt) : CallAt :=
  match found with
  | .error code => .raised (.claim code)
  | .ok (some step) => .stored step
  | .ok none => fresh

/-- `SELECT ... FOR UPDATE` of the claim's start row, and the check of its owner and run. -/
def lockStart (s : Publishing) (c : Call) : CallAt :=
  match s.rows.find? (·.ofClaim c.event.claimId .start) with
  | none => .raised (.claim .claimNotFound)
  | some start =>
    if !s.rowFree start.event.eventId then c.place
    else if start.event.ownerSub ≠ c.event.ownerSub ∨ start.event.runId ≠ c.event.runId then
      .raised (.claim .claimNotOwned)
    else .locked start.event.eventId

/-- The lookup of the key under the lock. -/
def lookUnderLock (s : Publishing) (c : Call) (start : Nat) : CallAt :=
  looked (findByKey s.rows c.event c.key) (.unkeyed start)

def checkCompleted (s : Publishing) (c : Call) (start : Nat) : CallAt :=
  if s.rows.any (·.ofClaim c.event.claimId .completion) then .raised (.claim .claimCompleted)
  else .opened start

/-- After an `IntegrityError`. -/
def lookAgain (s : Publishing) (c : Call) : CallAt :=
  looked (findByKey s.rows c.event c.key)
    (if c.event.phase = .completion then .raised (.claim .claimCompleted) else .raised .failed)

/-- The row is locked for the delivery, unless the step was delivered before. -/
def lockStored (s : Publishing) (c : Call) (step : StoredStep) : CallAt :=
  if step.delivered then .answered ⟨step.event, step.seq, none, true, false⟩
  else
    match s.rows.find? (·.event.eventId = step.event.eventId) with
    | none => .raised .failed
    | some r =>
      if !s.rowFree step.event.eventId then c.place
      else if r.streamEntryId.isSome then
        .answered ⟨step.event, step.seq, none, step.replayed, false⟩
      else .delivering step

/-- The next statement of a call; a call that waits for a lock stays where it is. -/
def statement (s : Publishing) (c : Call) : CallAt :=
  match c.place with
  | .called =>
    if !c.event.isTrustedClaim then .raised .notTrusted
    else if c.event.phase = .start then looked (findByKey s.rows c.event c.key) .looked
    else s.lockStart c
  | .locked start => s.lookUnderLock c start
  | .unkeyed start => s.checkCompleted c start
  | .looked => if s.counterFree then .numbered none (s.lastSeq + 1) else .looked
  | .opened start =>
    if s.counterFree then .numbered (some start) (s.lastSeq + 1) else .opened start
  | .collided => s.lookAgain c
  | .stored step => s.lockStored c step
  | p => p

/-- INSERT and COMMIT under number `n`. -/
def insert (s : Publishing) (i : Nat) (c : Call) (n : Nat) (commit : Commit) :
    Publishing × List PublishEvent :=
  let new : AgentAnnouncement := ⟨c.event, c.key, none, some n⟩
  if s.rows.any new.conflicts then (s.goto i c .collided, [])
  else
    match commit with
    | .rolledBack => (s.goto i c (.raised .failed), [])
    | .done =>
      ({ s.goto i c (.stored ⟨c.event, false, some n, false⟩) with
          lastSeq := n, rows := s.rows ++ [new] }, [.inserted i new])
    | .replyLost =>
      ({ s.goto i c (.raised .failed) with lastSeq := n, rows := s.rows ++ [new] },
        [.inserted i new])

/-! ### The delivery -/

/-- The script: the marker's entry, or a new one that the marker remembers. -/
def runScript (s : Publishing) (id : Nat) : Publishing × Nat × Bool × List PublishEvent :=
  match s.markers id with
  | some entry => (s, entry, false, [])
  | none =>
    ({ s with markers := Function.update s.markers id (some s.entries), entries := s.entries + 1 },
      s.entries, true, [.appended id])

def script (s : Publishing) (i : Nat) (c : Call) (step : StoredStep) (outcome : Commit) :
    Publishing × List PublishEvent :=
  let pending : CallAt := .answered ⟨step.event, step.seq, none, step.replayed, true⟩
  match outcome with
  | .rolledBack => (s.goto i c pending, [])
  | .replyLost =>
    let (s', _, _, es) := s.runScript step.event.eventId
    (s'.goto i c pending, es)
  | .done =>
    let (s', entry, wrote, es) := s.runScript step.event.eventId
    (s'.goto i c (.written step entry wrote), es)

/-- The UPDATE of the row and its commit; a failure is only logged. -/
def mark (s : Publishing) (i : Nat) (c : Call) (step : StoredStep) (entry : Nat) (wrote : Bool)
    (committed : Bool) : Publishing :=
  let result : AnnouncementPublishResult :=
    ⟨step.event, step.seq, if wrote then some entry else none, step.replayed, false⟩
  { s.goto i c (.answered result) with
    rows :=
      if committed then
        s.rows.map fun r =>
          if r.event.eventId = step.event.eventId then { r with streamEntryId := some entry } else r
      else s.rows }

/-- One step of one call; what is not due changes nothing. -/
def step (s : Publishing) : PublishAction → Publishing × List PublishEvent
  | .publish event key => ({ s with calls := s.calls ++ [⟨event, key, .called⟩] }, [])
  | .statement i =>
    match s.calls[i]? with
    | some c => (s.goto i c (s.statement c), [])
    | none => (s, [])
  | .insert i commit =>
    match s.calls[i]? with
    | some ⟨event, key, .numbered start n⟩ =>
      s.insert i ⟨event, key, .numbered start n⟩ n commit
    | _ => (s, [])
  | .script i outcome =>
    match s.calls[i]? with
    | some ⟨event, key, .delivering stored⟩ =>
      s.script i ⟨event, key, .delivering stored⟩ stored outcome
    | _ => (s, [])
  | .mark i committed =>
    match s.calls[i]? with
    | some ⟨event, key, .written stored entry wrote⟩ =>
      (s.mark i ⟨event, key, .written stored entry wrote⟩ stored entry wrote committed, [])
    | _ => (s, [])
  | .crash i =>
    match s.calls[i]? with
    -- a call that is over cannot fail any more
    | some ⟨_, _, .answered _⟩ | some ⟨_, _, .raised _⟩ => (s, [])
    | some c => (s.goto i c (.raised .failed), [])
    | none => (s, [])
  | .expireMarker id =>
    if (s.markers id).isSome then
      ({ s with markers := Function.update s.markers id none }, [.markerExpired id])
    else (s, [])

end Publishing

/-- One tenant and everybody who publishes in it. -/
def publishing : Machine Publishing PublishAction PublishEvent where
  start := ⟨0, [], [], fun _ => none, 0⟩
  step s a := s.step a

end Meho.Announce
