import Meho.Auth.Operator

/- Agent announcements and the rows of their archive (broadcast/agent_events.py,
broadcast/history.py, db/models.py).

A row is an event with the retry key, the entry of the stream it was written to and the
number of the archive; the event is what `row_to_announcement` reads back from it.

Correspondence: each class and function keeps its name; the rows are without
the tenant: all rows here are of one. -/
namespace Meho.Announce

inductive Phase where
  | start
  | update
  | completion
  deriving DecidableEq, Repr

structure AgentAnnouncementEvent where
  eventId : Nat
  principalSub : String
  activity : String
  target : Option String
  targets : List String
  scope : Option String
  plannedOpClass : Option String
  ttlMinutes : Option Int
  workRef : Option String
  runId : Option Nat
  phase : Phase
  ts : Time
  claimId : Option Nat
  ownerSub : Option String
  actorSub : Option String
  admission : Option String
  deriving DecidableEq, Repr

namespace AgentAnnouncementEvent

def isTrustedClaim (e : AgentAnnouncementEvent) : Bool := e.claimId.isSome && e.ownerSub.isSome

def expiresAt (e : AgentAnnouncementEvent) : Option Time :=
  e.ttlMinutes.map fun minutes => e.ts + seconds (60 * minutes)

/-- An announcement without a lifetime never expires. -/
def isExpiredClaim (e : AgentAnnouncementEvent) (now : Time) : Bool := e.expiresAt.any (· ≤ now)

end AgentAnnouncementEvent

structure AgentAnnouncement where
  event : AgentAnnouncementEvent
  idempotencyKey : Option String
  streamEntryId : Option Nat
  seq : Option Nat
  deriving DecidableEq, Repr

/-- The `filter` object of the read tools. -/
structure AnnouncementFilter where
  opClass : Option String
  principal : Option String
  target : Option String
  actorSub : Option String
  workRef : Option String
  activeOnly : Bool
  deriving DecidableEq, Repr

/-- `op_class` and `actor_sub` are fields of operation events: an announcement has neither. -/
def eventMatches (flt : AnnouncementFilter) (now : Time) (e : AgentAnnouncementEvent) : Bool :=
  if flt.opClass.isSome then false
  else if flt.principal.any (e.principalSub ≠ ·) then false
  else if flt.target.any (fun target => ¬ (e.target = some target ∨ target ∈ e.targets)) then false
  else if flt.actorSub.isSome then false
  else if flt.workRef.any (e.workRef ≠ some ·) then false
  else !(flt.activeOnly && e.isExpiredClaim now)

end Meho.Announce
