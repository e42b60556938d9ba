import Meho.Results.Admission

/- What one step of the result reads can do.

`Lease.Sound` says who may have released a lease: before the hand-off its request, after it
only a worker that is done. A step of one read keeps it, and neither drops the read's token
nor gives its slot (`after_keeps`). `Steps` is every step of the process with what it needs;
the invariants are proofs by its cases. -/
namespace Meho.Results
open Meho.Lib

/-! ## One read -/

namespace Lease

/-- A released lease was the request's to release, or its worker is done. -/
structure Sound (lease : Lease) : Prop where
  early : lease.request = .fetching ∨ lease.request = .submitting ∨ lease.request = .handing →
    lease.handedOff = false
  late : lease.request = .calling ∨ lease.request = .waiting → lease.handedOff = true
  callback : lease.callback ≠ .unset → lease.handedOff = true
  worker : lease.release ≠ .held → lease.handedOff = true → lease.job = .ended
  request : lease.release ≠ .held → lease.handedOff = false → lease.request = .over
  ended : lease.request = .over → lease.handedOff = false → lease.release ≠ .held
  run : lease.callback = .run → lease.release ≠ .held

theorem sound_admitted (token : Nat) : (admitted token).Sound where
  early _ := rfl
  late h := by cases h <;> contradiction
  callback h := absurd rfl h
  worker h := absurd rfl h
  request h := absurd rfl h
  ended h := by cases h
  run h := by cases h

theorem mark_release_ne (lease : Lease) : lease.mark.release ≠ .held := by
  unfold mark
  split
  · exact Release.noConfusion
  · assumption

theorem mark_fields (lease : Lease) :
    lease.mark.token = lease.token ∧ lease.mark.handedOff = lease.handedOff ∧
      lease.mark.request = lease.request ∧ lease.mark.job = lease.job ∧
      lease.mark.callback = lease.callback := by
  unfold mark
  split <;> exact ⟨rfl, rfl, rfl, rfl, rfl⟩

variable {lease : Lease}

theorem sound_mark
    (early : lease.request = .fetching ∨ lease.request = .submitting ∨ lease.request = .handing →
      lease.handedOff = false)
    (late : lease.request = .calling ∨ lease.request = .waiting → lease.handedOff = true)
    (callback : lease.callback ≠ .unset → lease.handedOff = true)
    (worker : lease.handedOff = true → lease.job = .ended)
    (request : lease.handedOff = false → lease.request = .over) : lease.mark.Sound := by
  obtain ⟨-, h₁, h₂, h₃, h₄⟩ := lease.mark_fields
  have hne := lease.mark_release_ne
  constructor
  · rwa [h₁, h₂]
  · rwa [h₁, h₂]
  · rwa [h₁, h₄]
  · rw [h₁, h₃]
    exact fun _ => worker
  · rw [h₁, h₂]
    exact fun _ => request
  · exact fun _ _ => hne
  · exact fun _ => hne

section
variable (h : lease.Sound)
include h

theorem Sound.leave : (lease.after .leave).Sound := by
  obtain ⟨early, late, callback, worker, request, ended, run⟩ := id h
  simp only [Lease.after]
  split
  · split
    · constructor <;> simp_all
    · apply sound_mark <;> simp_all
  · exact h

theorem Sound.release : (lease.after .release).Sound := by
  obtain ⟨early, late, callback, worker, request, ended, run⟩ := id h
  simp only [Lease.after]
  split
  · apply sound_mark <;> simp_all
  · split
    · apply sound_mark <;> simp_all
    · exact h

theorem Sound.fetched (ok : Bool) : (lease.after (.fetched ok)).Sound := by
  obtain ⟨early, late, callback, worker, request, ended, run⟩ := id h
  simp only [Lease.after]
  split
  · cases ok <;> constructor <;> simp_all
  · exact h

theorem Sound.submitted (ok : Bool) : (lease.after (.submitted ok)).Sound := by
  obtain ⟨early, late, callback, worker, request, ended, run⟩ := id h
  simp only [Lease.after]
  split
  · split <;> constructor <;> simp_all
  · exact h

theorem Sound.after (m : Move) : (lease.after m).Sound := by
  cases m with
  | leave => exact h.leave
  | release => exact h.release
  | fetched ok => exact h.fetched ok
  | submitted ok => exact h.submitted ok
  | rated ok => exact h
  | readClock => exact h
  | handOff | addCallback | waited | start | finish | cancelQueued =>
    obtain ⟨early, late, callback, worker, request, ended, run⟩ := id h
    simp only [Lease.after]
    split
    · constructor <;> simp_all
    · exact h

end

theorem mark_freed (lease : Lease) : lease.mark.release = .freed ↔ lease.release = .freed := by
  unfold mark
  split
  · rename_i h
    rw [h]
    exact ⟨Release.noConfusion, Release.noConfusion⟩
  · rfl

theorem ownsToken_mark (lease : Lease) : lease.mark.ownsToken = lease.ownsToken := by
  unfold mark
  split
  · rename_i h
    simp [ownsToken, h]
  · rfl

/-- A step of a read neither drops its token nor gives its slot. -/
theorem after_keeps (lease : Lease) (m : Move) :
    (lease.after m).token = lease.token ∧ (lease.after m).ownsToken = lease.ownsToken ∧
      ((lease.after m).release = .freed ↔ lease.release = .freed) := by
  cases m with
  | leave =>
    simp only [Lease.after]
    split
    · split
      · exact ⟨rfl, rfl, Iff.rfl⟩
      · exact ⟨(mark_fields _).1, ownsToken_mark _, mark_freed _⟩
    · exact ⟨rfl, rfl, Iff.rfl⟩
  | release =>
    simp only [Lease.after]
    split
    · exact ⟨(mark_fields _).1, ownsToken_mark _, mark_freed _⟩
    · split
      · exact ⟨(mark_fields _).1, ownsToken_mark _, mark_freed _⟩
      · exact ⟨rfl, rfl, Iff.rfl⟩
  | submitted ok =>
    simp only [Lease.after]
    split
    · split <;> exact ⟨rfl, rfl, Iff.rfl⟩
    · exact ⟨rfl, rfl, Iff.rfl⟩
  | rated ok | readClock => exact ⟨rfl, rfl, Iff.rfl⟩
  | fetched | handOff | addCallback | waited | start | finish | cancelQueued =>
    simp only [Lease.after]
    split <;> exact ⟨rfl, rfl, Iff.rfl⟩

end Lease

namespace Place

def holdsSlot (p : Place) : Bool := p.unreleased || p.midStep

theorem holdsSlot_admitted (lease : Lease) :
    (admitted lease).holdsSlot = !decide (lease.release = .freed) := by
  cases h : lease.release <;> simp [holdsSlot, unreleased, midStep, h]

theorem after_admitted (clock : Time) (lease : Lease) (m : Move) :
    (admitted lease).after clock m = admitted (lease.after m) := by
  cases m <;> rfl

/-- A step that the gate does not see. -/
theorem after_keeps (clock : Time) (p : Place) (m : Move) :
    (p.after clock m).holdsSlot = p.holdsSlot ∧ (p.after clock m).taken = p.taken ∧
      (p.after clock m).given = p.given := by
  cases p with
  | admitted lease =>
    have hfreed := (lease.after_keeps m).2.2
    rw [after_admitted]
    refine ⟨?_, rfl, ?_⟩
    · simp only [holdsSlot_admitted, hfreed]
    · simp only [given, hfreed]
  | rating => cases m with
    | rated ok => cases ok <;> exact ⟨rfl, rfl, rfl⟩
    | _ => exact ⟨rfl, rfl, rfl⟩
  | withSlot => cases m <;> exact ⟨rfl, rfl, rfl⟩
  | _ => exact ⟨rfl, rfl, rfl⟩

theorem after_lease? (clock : Time) (p : Place) (m : Move) :
    (p.after clock m).lease? = p.lease?.map (·.after m) := by
  cases p with
  | admitted lease => rw [after_admitted]; rfl
  | rating => cases m with
    | rated ok => cases ok <;> rfl
    | _ => rfl
  | withSlot => cases m <;> rfl
  | _ => rfl

end Place

section Steps
variable {T : Type} [DecidableEq T] {cap : Nat}

/-- Every step, with what it needs. -/
inductive Steps (cap : Nat) (s : Reads T) : ReadAction T → Reads T → List GateEvent → Prop where
  | idle (a : ReadAction T) : Steps cap s a s []
  | arrive (tenant : T) :
    Steps cap s (.arrive tenant) { s with reads := s.reads ++ [⟨tenant, .rating⟩] } []
  | move {i : Nat} {r : Read T} (h : s.reads[i]? = some r) (m : Move) :
    Steps cap s (.move i m) (s.goto i r (r.place.after s.clock m)) []
  | full {i : Nat} {r : Read T} (h : s.reads[i]? = some r) (hr : r.place = .asking) :
    Steps cap s (.acquireSlot i) (s.goto i r (.rejected .process)) []
  | slot {i : Nat} {r : Read T} (h : s.reads[i]? = some r) (hr : r.place = .asking)
      (hfree : s.gate.inUse < s.gate.capacity) :
    Steps cap s (.acquireSlot i)
      { s.goto i r .withSlot with gate := ⟨s.gate.capacity, s.gate.inUse + 1⟩ } [.taken i]
  | atCap {i : Nat} {r : Read T} {now : Time} (h : s.reads[i]? = some r)
      (hr : r.place = .withClock now) :
    Steps cap s (.acquireLease i)
      { s.goto i r .givingBack with
        leases := Function.update s.leases r.tenant ((s.leases r.tenant).filter (now < ·.2)) } []
  | lease {i : Nat} {r : Read T} {now : Time} (h : s.reads[i]? = some r)
      (hr : r.place = .withClock now)
      (hcap : ((s.leases r.tenant).filter (now < ·.2)).length < cap) :
    Steps cap s (.acquireLease i)
      { s.goto i r (.admitted (Lease.admitted s.drawn)) with
        leases := Function.update s.leases r.tenant
          (Assoc.assign ((s.leases r.tenant).filter (now < ·.2)) s.drawn (now + tenantLeaseTtl))
        drawn := s.drawn + 1 } []
  | giveBack {i : Nat} {r : Read T} (h : s.reads[i]? = some r) (hr : r.place = .givingBack) :
    Steps cap s (.giveBack i) (s.giveBack i r).1 [.given i]
  | dropLease {i : Nat} {r : Read T} {l : Lease} (h : s.reads[i]? = some r)
      (hr : r.place = .admitted l) (hl : l.release = .marked) :
    Steps cap s (.dropLease i) (s.dropLease i r l) []
  | giveSlot {i : Nat} {r : Read T} {l : Lease} (h : s.reads[i]? = some r)
      (hr : r.place = .admitted l) (hl : l.release = .dropped) :
    Steps cap s (.giveSlot i) (s.giveSlot i r l).1 [.given i]
  | renew {i : Nat} {r : Read T} {l : Lease} (h : s.reads[i]? = some r)
      (hr : r.place = .admitted l) :
    Steps cap s (.renew i) { s with leases := s.leases.renew r.tenant l.token s.clock } []
  | tick (time : Nat) : Steps cap s (.tick time) { s with clock := s.clock + time } []

theorem steps_step (s : Reads T) (a : ReadAction T) :
    Steps cap s a (s.step cap a).1 (s.step cap a).2 := by
  cases a with
  | arrive tenant => exact .arrive tenant
  | tick time => exact .tick time
  | move i m =>
    simp only [Reads.step]
    split
    · rename_i h
      exact .move h m
    · exact .idle _
  | acquireSlot i =>
    simp only [Reads.step]
    split
    · rename_i h
      simp only [Reads.acquireSlot, SlotGate.tryAcquire]
      split
      · exact .full h rfl
      · rename_i heq
        split at heq
        · cases heq
        · -- below the cap the slot is taken in the same step
          rename_i hfree
          obtain rfl := Option.some.inj heq
          exact .slot h rfl (Nat.lt_of_not_le hfree)
    · exact .idle _
  | acquireLease i =>
    simp only [Reads.step]
    split
    · rename_i h
      simp only [Reads.acquireLease, TenantLeases.acquire]
      split
      · rename_i heq
        split at heq
        · obtain ⟨rfl, -⟩ := Prod.mk.inj heq
          exact .atCap h rfl
        · cases heq
      · rename_i heq
        split at heq
        · cases heq
        · rename_i hcap
          -- a lease with a drawn token: the tenant was below its cap
          obtain ⟨rfl, hdrawn⟩ := Prod.mk.inj heq
          obtain rfl := Option.some.inj hdrawn
          exact .lease h rfl (Nat.lt_of_not_le hcap)
    · exact .idle _
  | giveBack i =>
    simp only [Reads.step]
    split
    · rename_i h
      exact .giveBack h rfl
    · exact .idle _
  | dropLease i =>
    simp only [Reads.step]
    split
    · rename_i h
      split
      · rename_i hl
        exact .dropLease h rfl hl
      · exact .idle _
    · exact .idle _
  | giveSlot i =>
    simp only [Reads.step]
    split
    · rename_i h
      split
      · rename_i hl
        exact .giveSlot h rfl hl
      · exact .idle _
    · exact .idle _
  | renew i =>
    simp only [Reads.step]
    split
    · rename_i h
      exact .renew h rfl
    · exact .idle _

end Steps
end Meho.Results
