import Meho.Lib.Assoc
import Meho.Lib.History
import Meho.Lib.Parties
import Meho.Auth.Operator
import Mathlib.Logic.Function.Basic

/- Admission of result reads and the worker pool they run on
(operations/result_read_admission.py, operations/result_query.py).

A read passes the rate check, takes one of the process's slots and then a lease of its
tenant. With the lease it fetches the record and hands its work to the pool; from the
hand-off on the lease is the worker's, and only the callback of its future releases it.
A read that leaves before the hand-off releases the lease itself.

A lock is held for one step, so that the gate, the leases of the tenants and the flag of
one lease change in one step each. Everything else interleaves: the three steps of a
release (flag, tenant lease, slot), the steps of an admission (slot, clock, tenant lease),
the worker, the callback, the keeper's renewals and the clock.

Correspondence: `_SlotGate` ↔ `SlotGate`; `_TenantLeases` ↔ `TenantLeases`, where a tenant
without a dictionary has the empty one; `ResultReadLease` ↔ `Lease`, with where its request,
its future and the future's callback stand; `admit_result_read`, `_run_admitted_read` and
`run_on_result_read_executor` ↔ `Place.after`, `Lease.after` and the actions of `ReadAction`.
A token is the number of its draw: `uuid4` repeats none. -/
namespace Meho.Results
open Meho.Lib

/-! ## The gate and the leases of the tenants -/

structure SlotGate where
  capacity : Nat
  inUse : Nat
  deriving DecidableEq, Repr

namespace SlotGate

def tryAcquire (gate : SlotGate) : Option SlotGate :=
  if gate.inUse ≥ gate.capacity then none else some { gate with inUse := gate.inUse + 1 }

/-- Not below zero. -/
def release (gate : SlotGate) : SlotGate := { gate with inUse := gate.inUse - 1 }

end SlotGate

/-- `_TENANT_LEASE_TTL_SECONDS`, in microseconds. -/
def tenantLeaseTtl : Time := 60 * 1000000

/-- Of each tenant, the tokens held and when each expires. -/
abbrev TenantLeases (T : Type) := T → List (Nat × Time)

section
variable {T : Type} [DecidableEq T]

namespace TenantLeases

/-- What has expired at `now` goes; then the token is added, unless the tenant is at its cap.
`now` was read before the lock was taken. -/
def acquire (leases : TenantLeases T) (tenant : T) (cap : Nat) (now : Time) (token : Nat) :
    TenantLeases T × Option Nat :=
  let held := (leases tenant).filter (now < ·.2)
  if held.length ≥ cap then (Function.update leases tenant held, none)
  else
    (Function.update leases tenant (Assoc.assign held token (now + tenantLeaseTtl)), some token)

/-- Only a token that is still held gets more time. -/
def renew (leases : TenantLeases T) (tenant : T) (token : Nat) (clock : Time) : TenantLeases T :=
  if token ∈ (leases tenant).map Prod.fst then
    Function.update leases tenant
      (Assoc.assign (leases tenant) token (clock + tenantLeaseTtl))
  else leases

def release (leases : TenantLeases T) (tenant : T) (token : Nat) : TenantLeases T :=
  Function.update leases tenant ((leases tenant).filter (·.1 ≠ token))

end TenantLeases
end

/-! ## One admitted read -/

/-- How far the release of a lease is. -/
inductive Release where
  | held
  /-- `_released` is set; the tenant lease is dropped next. -/
  | marked
  /-- The tenant lease is dropped; the slot is given back next. -/
  | dropped
  | freed
  deriving DecidableEq, Repr

/-- Where the request of a read is, once it is admitted. -/
inductive Request where
  /-- Awaiting `fetch_record`. -/
  | fetching
  | submitting
  /-- `submit` returned; `handed_off` is set next. -/
  | handing
  /-- The callback is added next. -/
  | calling
  /-- Awaiting the shielded keeper. -/
  | waiting
  /-- At the `finally` of `admit_result_read`. -/
  | leaving
  | over
  deriving DecidableEq, Repr

/-- The future on the pool. -/
inductive Job where
  | unsubmitted
  | queued
  | running
  | ended
  deriving DecidableEq, Repr

/-- The job's release callback. -/
inductive Callback where
  | unset
  | set
  | run
  deriving DecidableEq, Repr

/-- A lease, and how far its read, its job and its release have come. -/
structure Lease where
  token : Nat
  handedOff : Bool
  release : Release
  request : Request
  job : Job
  callback : Callback
  deriving DecidableEq, Repr

/-- A step of one read that takes no lock but its lease's own. -/
inductive Move where
  /-- The rate check passed; otherwise it was over the limit, failed, or was cancelled. -/
  | rated (ok : Bool)
  | readClock
  /-- A record came; otherwise there was none, the store failed, or the read timed out or was
  cancelled. -/
  | fetched (ok : Bool)
  /-- The pool took the work; otherwise `submit` raised. -/
  | submitted (ok : Bool)
  | handOff
  | addCallback
  /-- The result came, or the wait timed out or was cancelled. -/
  | waited
  | leave
  | start
  | finish
  /-- The event loop shuts down while the work is still queued. -/
  | cancelQueued
  /-- A call of `release`, the callback's or a repeated one. -/
  | release
  deriving DecidableEq, Repr

namespace Lease

def admitted (token : Nat) : Lease := ⟨token, false, .held, .fetching, .unsubmitted, .unset⟩

/-- The first call of `release` sets the flag, any other returns. -/
def mark (lease : Lease) : Lease :=
  if lease.release = .held then { lease with release := .marked } else lease

/-- What a step makes of a read with a lease; what is not due changes nothing. -/
def after (lease : Lease) : Move → Lease
  | .fetched ok =>
    if lease.request = .fetching then
      { lease with request := if ok then .submitting else .leaving }
    else lease
  | .submitted ok =>
    if lease.request = .submitting then
      if ok then { lease with request := .handing, job := .queued }
      else { lease with request := .leaving }
    else lease
  | .handOff =>
    if lease.request = .handing then { lease with request := .calling, handedOff := true }
    else lease
  | .addCallback =>
    if lease.request = .calling then { lease with request := .waiting, callback := .set }
    else lease
  | .waited => if lease.request = .waiting then { lease with request := .leaving } else lease
  | .leave =>
    if lease.request = .leaving then
      if lease.handedOff then { lease with request := .over }
      else { lease with request := .over }.mark
    else lease
  | .start => if lease.job = .queued then { lease with job := .running } else lease
  | .finish => if lease.job = .running then { lease with job := .ended } else lease
  -- the keeper that cancels the future is there once the callback is
  | .cancelQueued =>
    if lease.job = .queued ∧ lease.callback ≠ .unset then { lease with job := .ended } else lease
  | .release =>
    if lease.callback ≠ .unset ∧ lease.job = .ended then { lease with callback := .run }.mark
    else if lease.handedOff = false ∧ lease.request = .over then lease.mark
    else lease
  | .rated _ | .readClock => lease

/-- The request is over, a worker's callback ran, and no release is under way. -/
def Settled (lease : Lease) : Prop :=
  lease.request = .over ∧ (lease.handedOff = true → lease.callback = .run) ∧
    lease.release ≠ .marked ∧ lease.release ≠ .dropped

instance (lease : Lease) : Decidable lease.Settled := inferInstanceAs (Decidable (_ ∧ _))

/-- The token is the lease's until it drops it. -/
def ownsToken (lease : Lease) : Bool := lease.release = .held || lease.release = .marked

end Lease

/-! ## All reads -/

/-- Which limit turned a read away. -/
inductive Scope where
  | rate
  | process
  | tenant
  deriving DecidableEq, Repr

/-- Where one read stands. -/
inductive Place where
  /-- Awaiting `_check_rate`. -/
  | rating
  | asking
  | withSlot
  | withClock (now : Time)
  /-- The tenant is at its cap: the slot is given back next. -/
  | givingBack
  | rejected (scope : Scope)
  | admitted (lease : Lease)
  deriving DecidableEq, Repr

namespace Place

def after (clock : Time) : Place → Move → Place
  | .rating, .rated ok => if ok then .asking else .rejected .rate
  | .withSlot, .readClock => .withClock clock
  | .admitted lease, m => .admitted (lease.after m)
  | p, _ => p

def lease? : Place → Option Lease
  | .admitted lease => some lease
  | _ => none

/-- An admitted lease that is not yet released. -/
def unreleased : Place → Bool
  | .admitted lease => lease.release = .held
  | _ => false

/-- The read has a slot and is between two steps of its admission, its refusal or its
release. -/
def midStep : Place → Bool
  | .withSlot | .withClock _ | .givingBack => true
  | .admitted lease => lease.release = .marked || lease.release = .dropped
  | _ => false

/-- How often the read took a slot. -/
def taken : Place → Nat
  | .rating | .asking | .rejected .rate | .rejected .process => 0
  | _ => 1

/-- How often it gave one back. -/
def given : Place → Nat
  | .rejected .tenant => 1
  | .admitted lease => if lease.release = .freed then 1 else 0
  | _ => 0

end Place

/-- A read of a tenant, and where it stands. -/
structure Read (T : Type) where
  tenant : T
  place : Place
  deriving DecidableEq, Repr

/-- The process: its clock, the gate, the leases, the tokens drawn, and the reads so far. -/
structure Reads (T : Type) where
  clock : Time
  gate : SlotGate
  leases : TenantLeases T
  drawn : Nat
  reads : List (Read T)

/-- What the gate sees of a read. -/
inductive GateEvent where
  | taken (read : Nat)
  | given (read : Nat)
  deriving DecidableEq, Repr

/-- A step of a read or of its release, or the passing of time. -/
inductive ReadAction (T : Type) where
  | arrive (tenant : T)
  | move (read : Nat) (m : Move)
  | acquireSlot (read : Nat)
  | acquireLease (read : Nat)
  /-- The slot of a read that its tenant's cap refused. -/
  | giveBack (read : Nat)
  /-- The second and the third step of a release. -/
  | dropLease (read : Nat)
  | giveSlot (read : Nat)
  /-- By the keeper, or by anyone who still has the lease. -/
  | renew (read : Nat)
  | tick (time : Nat)
  deriving DecidableEq, Repr

section Steps
variable {T : Type} [DecidableEq T] (cap : Nat)

namespace Reads

/-- Read `i` goes on to `place`. -/
def goto (s : Reads T) (i : Nat) (r : Read T) (place : Place) : Reads T :=
  { s with reads := Parties.moveOne s.reads i { r with place } }

def acquireSlot (s : Reads T) (i : Nat) (r : Read T) : Reads T × List GateEvent :=
  match s.gate.tryAcquire with
  | none => (s.goto i r (.rejected .process), [])
  | some gate => ({ s.goto i r .withSlot with gate }, [.taken i])

def acquireLease (s : Reads T) (i : Nat) (r : Read T) (now : Time) : Reads T :=
  match s.leases.acquire r.tenant cap now s.drawn with
  | (leases, none) => { s.goto i r .givingBack with leases }
  | (leases, some token) =>
    { s.goto i r (.admitted (Lease.admitted token)) with leases, drawn := s.drawn + 1 }

def giveBack (s : Reads T) (i : Nat) (r : Read T) : Reads T × List GateEvent :=
  ({ s.goto i r (.rejected .tenant) with gate := s.gate.release }, [.given i])

def dropLease (s : Reads T) (i : Nat) (r : Read T) (lease : Lease) : Reads T :=
  { s.goto i r (.admitted { lease with release := .dropped }) with
    leases := s.leases.release r.tenant lease.token }

def giveSlot (s : Reads T) (i : Nat) (r : Read T) (lease : Lease) : Reads T × List GateEvent :=
  ({ s.goto i r (.admitted { lease with release := .freed }) with gate := s.gate.release },
    [.given i])

/-- One step of one party; what is not due changes nothing. -/
def step (s : Reads T) : ReadAction T → Reads T × List GateEvent
  | .arrive tenant => ({ s with reads := s.reads ++ [⟨tenant, .rating⟩] }, [])
  | .move i m =>
    match s.reads[i]? with
    | some r => (s.goto i r (r.place.after s.clock m), [])
    | none => (s, [])
  | .acquireSlot i =>
    match s.reads[i]? with
    | some ⟨tenant, .asking⟩ => s.acquireSlot i ⟨tenant, .asking⟩
    | _ => (s, [])
  | .acquireLease i =>
    match s.reads[i]? with
    | some ⟨tenant, .withClock now⟩ => (s.acquireLease cap i ⟨tenant, .withClock now⟩ now, [])
    | _ => (s, [])
  | .giveBack i =>
    match s.reads[i]? with
    | some ⟨tenant, .givingBack⟩ => s.giveBack i ⟨tenant, .givingBack⟩
    | _ => (s, [])
  | .dropLease i =>
    match s.reads[i]? with
    | some ⟨tenant, .admitted lease⟩ =>
      -- the release marks first, then drops the lease, then gives the slot
      if lease.release = .marked then (s.dropLease i ⟨tenant, .admitted lease⟩ lease, [])
      else (s, [])
    | _ => (s, [])
  | .giveSlot i =>
    match s.reads[i]? with
    | some ⟨tenant, .admitted lease⟩ =>
      if lease.release = .dropped then s.giveSlot i ⟨tenant, .admitted lease⟩ lease
      else (s, [])
    | _ => (s, [])
  | .renew i =>
    match s.reads[i]? with
    | some ⟨tenant, .admitted lease⟩ =>
      ({ s with leases := s.leases.renew tenant lease.token s.clock }, [])
    | _ => (s, [])
  | .tick time => ({ s with clock := s.clock + time }, [])

def countAt (s : Reads T) (p : Place → Bool) : Nat := s.reads.countP (p ·.place)

/-- How many admitted leases are not yet released. -/
def unreleased (s : Reads T) : Nat := s.countAt Place.unreleased

/-- How many reads with a slot are between two steps. -/
def midStep (s : Reads T) : Nat := s.countAt Place.midStep

/-- The lease of read `i`, when it was admitted. -/
def leaseOf (s : Reads T) (i : Nat) : Option Lease := s.reads[i]?.bind (·.place.lease?)

/-- When the token of read `i` expires, while its tenant holds it. -/
def expiry (s : Reads T) (i : Nat) : Option Time :=
  s.reads[i]?.bind fun r => r.place.lease?.bind fun lease =>
    Assoc.get (s.leases r.tenant) lease.token

/-- The reads of a tenant whose lease has not expired. -/
def unexpired (s : Reads T) (tenant : T) : List Nat :=
  (List.range s.reads.length).filter fun i =>
    s.reads[i]?.any (·.tenant = tenant) && (s.expiry i).any (s.clock < ·)

end Reads

/-- One process with a fixed configuration. -/
def resultReads (workers : Nat) : Machine (Reads T) (ReadAction T) GateEvent where
  start := ⟨0, ⟨workers, 0⟩, fun _ => [], 0, []⟩
  step s a := s.step cap a

end Steps
end Meho.Results
