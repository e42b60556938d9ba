import Meho.Lib.History
import Meho.Lib.Parties

/- The cap on dispatches in flight (operations/dispatch_limits.py).

The counter of a tenant's principal is one key. An attempt to dispatch increments it; when
that takes it above the cap the attempt gives its step back and is refused, otherwise it
holds a slot until it finishes. Giving back is a decrement, and a delete of the key when
the decrement answers zero or less.

Each command is one atomic step and any number of workers send theirs in any order.
`slots_within_cap`: the counter and the cap hold in every run in which nobody increments
between a decrement that answered zero and its delete. A worker that does holds a slot
that the delete then forgets (`delete_forgets_slot`).

Correspondence: `acquire_dispatch_slot` ↔ `acquireDispatchSlot` and the `decr` of an attempt
that is over the cap; `release_dispatch_slot` ↔ the `decr` of one that holds a slot;
`_decr_and_reap` ↔ `decrOne`, `deleteKey`. An absent key counts as 0. The expiry is a step
of its own. -/
namespace Meho.Dispatch
open Meho.Lib

/-! ## The commands -/

/-- Where one attempt stands. -/
inductive Attempt where
  | holding
  /-- Above the cap: about to give back. -/
  | overCap
  /-- Its decrement answered zero or less: about to delete. -/
  | reaping
  | over
  deriving DecidableEq, Repr

/-- The key, and the attempts so far. -/
structure InFlight where
  counter : Option Int
  attempts : List Attempt
  deriving DecidableEq, Repr

namespace InFlight

def stored (s : InFlight) : Int := s.counter.getD 0

def countAt (s : InFlight) (place : Attempt) : Nat := s.attempts.countP (· = place)

/-- How many dispatches hold a slot. -/
def holders (s : InFlight) : Nat := s.countAt .holding

def overCap (s : InFlight) : Nat := s.countAt .overCap

def reaping (s : InFlight) : Nat := s.countAt .reaping

/-- No acquire or release is in progress. -/
def Quiet (s : InFlight) : Prop := s.overCap = 0 ∧ s.reaping = 0

instance (s : InFlight) : Decidable s.Quiet := inferInstanceAs (Decidable (_ ∧ _))

theorem countAt_arrive (s : InFlight) (counter : Option Int) (a place : Attempt) :
    countAt ⟨counter, s.attempts ++ [a]⟩ place =
      s.countAt place + (decide (a = place)).toNat :=
  Parties.countP_arrive (· = place) s.attempts a

section
variable {s : InFlight} {i : Nat} {a : Attempt} (h : s.attempts[i]? = some a)
include h

theorem countAt_move (counter : Option Int) (b place : Attempt) :
    countAt ⟨counter, Parties.moveOne s.attempts i b⟩ place + (decide (a = place)).toNat =
      s.countAt place + (decide (b = place)).toNat :=
  Parties.countP_moveOne (· = place) h b

theorem countAt_pos : 0 < s.countAt a :=
  Parties.countP_pos_of_at h (decide_eq_true rfl)

end

end InFlight

section Steps
variable (cap : Int)

/-- The pipeline of `INCR` and `EXPIRE`; without a cap no command is sent. -/
def acquireDispatchSlot (s : InFlight) : InFlight :=
  if cap ≤ 0 then s
  else
    let count := s.stored + 1
    { counter := some count
      attempts := s.attempts ++ [if cap < count then .overCap else .holding] }

/-- `DECR`, by an attempt that gives its step back. -/
def decrOne (s : InFlight) (i : Nat) : InFlight :=
  let remaining := s.stored - 1
  { counter := some remaining
    attempts := Parties.moveOne s.attempts i (if remaining ≤ 0 then .reaping else .over) }

/-- `DELETE`, by an attempt whose decrement answered zero or less. -/
def deleteKey (s : InFlight) (i : Nat) : InFlight where
  counter := none
  attempts := Parties.moveOne s.attempts i .over

/-- A single command on the counter's key. -/
inductive InFlightAction where
  | acquire
  | decr (attempt : Nat)
  | delete (attempt : Nat)
  /-- The key's time to live runs out; not while a slot is held. -/
  | expire
  deriving DecidableEq, Repr

/-- One command of any worker; what no worker is about to send changes nothing. -/
def InFlight.step (s : InFlight) : InFlightAction → InFlight
  | .acquire => acquireDispatchSlot cap s
  | .decr i =>
    match s.attempts[i]? with
    | some .holding | some .overCap => decrOne s i
    | _ => s
  | .delete i =>
    match s.attempts[i]? with
    | some .reaping => deleteKey s i
    | _ => s
  | .expire => if s.holders = 0 then { s with counter := none } else s

/-- The key and its workers. -/
def inFlight : Machine InFlight InFlightAction Unit where
  start := ⟨none, []⟩
  step s a := (s.step cap a, [])

/-! ## What every run keeps -/

/-- Nobody increments before a delete that is due, and the key does not expire before an
attempt that is over the cap gave back. -/
def NoneBetween (s : InFlight) : InFlightAction → Prop
  | .acquire => s.reaping = 0
  | .expire => s.overCap = 0
  | _ => True

instance (s : InFlight) (a : InFlightAction) : Decidable (NoneBetween s a) := by
  cases a <;> unfold NoneBetween <;> infer_instance

/-- The counter counts the slots and the attempts above the cap, and is zero while a delete
is due. -/
structure Counted (s : InFlight) : Prop where
  stored : s.stored = s.holders + s.overCap
  within : (s.holders : Int) ≤ cap
  reaping : 0 < s.reaping → s.stored = 0

variable {cap}

theorem acquireDispatchSlot_of_pos (hcap : 0 < cap) (s : InFlight) :
    acquireDispatchSlot cap s =
      ⟨some (s.stored + 1), s.attempts ++ [if cap < s.stored + 1 then .overCap else .holding]⟩ :=
  if_neg (Int.not_le.mpr hcap)

theorem Counted.acquire (hcap : 0 < cap) {s : InFlight} (h : Counted cap s) (hno : s.reaping = 0) :
    Counted cap (acquireDispatchSlot cap s) := by
  obtain ⟨hstored, hwithin, -⟩ := h
  rw [acquireDispatchSlot_of_pos hcap]
  simp only [InFlight.holders, InFlight.overCap, InFlight.reaping] at hstored hwithin hno
  by_cases hfull : cap < s.stored + 1
  · rw [if_pos hfull]
    have hholders := s.countAt_arrive (some (s.stored + 1)) .overCap .holding
    have hover := s.countAt_arrive (some (s.stored + 1)) .overCap .overCap
    have hreaping := s.countAt_arrive (some (s.stored + 1)) .overCap .reaping
    simp only [reduceCtorEq, decide_true, decide_false, Bool.toNat_true, Bool.toNat_false]
      at hholders hover hreaping
    constructor
    · show s.stored + 1 = _
      simp only [InFlight.holders, InFlight.overCap]
      omega
    · simp only [InFlight.holders]
      omega
    · simp only [InFlight.reaping]
      omega
  · rw [if_neg hfull]
    have hholders := s.countAt_arrive (some (s.stored + 1)) .holding .holding
    have hover := s.countAt_arrive (some (s.stored + 1)) .holding .overCap
    have hreaping := s.countAt_arrive (some (s.stored + 1)) .holding .reaping
    simp only [reduceCtorEq, decide_true, decide_false, Bool.toNat_true, Bool.toNat_false]
      at hholders hover hreaping
    constructor
    · show s.stored + 1 = _
      simp only [InFlight.holders, InFlight.overCap]
      omega
    · simp only [InFlight.holders]
      omega
    · simp only [InFlight.reaping]
      omega

/-- A slot or a step above the cap is given back. -/
theorem Counted.decr {s : InFlight} (h : Counted cap s) {i : Nat} {a : Attempt}
    (ha : s.attempts[i]? = some a) (hgives : a = .holding ∨ a = .overCap) :
    Counted cap (decrOne s i) := by
  have hstored := h.stored
  have hwithin := h.within
  have hzero := h.reaping
  have hhere := InFlight.countAt_pos ha
  let next : Attempt := if s.stored - 1 ≤ 0 then .reaping else .over
  show Counted cap ⟨some (s.stored - 1), Parties.moveOne s.attempts i next⟩
  have hnext : next = .reaping ∧ s.stored - 1 ≤ 0 ∨ next = .over ∧ 0 < s.stored - 1 := by
    by_cases hlast : s.stored - 1 ≤ 0
    · exact .inl ⟨if_pos hlast, hlast⟩
    · exact .inr ⟨if_neg hlast, by omega⟩
  clear_value next
  have hholders := InFlight.countAt_move ha (some (s.stored - 1)) next .holding
  have hover := InFlight.countAt_move ha (some (s.stored - 1)) next .overCap
  have hreaping := InFlight.countAt_move ha (some (s.stored - 1)) next .reaping
  have hstored' : InFlight.stored ⟨some (s.stored - 1), Parties.moveOne s.attempts i next⟩ =
    s.stored - 1 := rfl
  simp only [InFlight.holders, InFlight.overCap, InFlight.reaping] at hstored hwithin hzero
  -- who gives back, and whether the key is deleted next
  rcases hgives with rfl | rfl <;> rcases hnext with ⟨rfl, hlast⟩ | ⟨rfl, hlast⟩ <;>
    simp only [reduceCtorEq, decide_true, decide_false, Bool.toNat_true, Bool.toNat_false]
      at hholders hover hreaping <;>
    constructor <;>
    simp only [InFlight.holders, InFlight.overCap, InFlight.reaping, hstored'] <;>
    omega

/-- The key is deleted, or expires, when nobody is counted. -/
theorem Counted.delete {s : InFlight} (h : Counted cap s) {i : Nat}
    (ha : s.attempts[i]? = some .reaping) : Counted cap (deleteKey s i) := by
  have hstored := h.stored
  have hwithin := h.within
  have hzero := h.reaping (InFlight.countAt_pos ha)
  have hholders := InFlight.countAt_move ha none .over .holding
  have hover := InFlight.countAt_move ha none .over .overCap
  simp only [reduceCtorEq, decide_false, Bool.toNat_false] at hholders hover
  simp only [InFlight.holders, InFlight.overCap] at hstored hwithin
  have hstored' : (deleteKey s i).stored = 0 := rfl
  constructor
  · rw [hstored']
    simp only [InFlight.holders, InFlight.overCap, deleteKey]
    omega
  · simp only [InFlight.holders, deleteKey]
    omega
  · exact fun _ => hstored'

theorem Counted.step (hcap : 0 < cap) {s : InFlight} (h : Counted cap s) {a : InFlightAction}
    (hnone : NoneBetween s a) : Counted cap (s.step cap a) := by
  cases a with
  | acquire => exact h.acquire hcap hnone
  | decr i =>
    show Counted cap (match s.attempts[i]? with
      | some .holding | some .overCap => decrOne s i
      | _ => s)
    split
    · rename_i ha
      exact h.decr ha (.inl rfl)
    · rename_i ha
      exact h.decr ha (.inr rfl)
    · exact h
  | delete i =>
    show Counted cap (match s.attempts[i]? with
      | some .reaping => deleteKey s i
      | _ => s)
    split
    · rename_i ha
      exact h.delete ha
    · exact h
  | expire =>
    show Counted cap (if s.holders = 0 then { s with counter := none } else s)
    split
    · rename_i hno
      refine ⟨?_, h.within, fun _ => rfl⟩
      show (0 : Int) = s.holders + s.overCap
      rw [hno, hnone]
      rfl
    · exact h

/-- With a cap, and in every run in which nobody increments the counter between a decrement
that answered zero or less and its delete, and the key does not expire before an attempt that
is over the cap gave back: no more dispatches hold a slot than the cap allows, the counter is
at least their number, and it is their number when no acquire or release is in progress. -/
theorem slots_within_cap (hcap : 0 < cap) (acts : List InFlightAction)
    (h : (inFlight cap).Along (fun c a => NoneBetween c.state a) (inFlight cap).begin_ acts) :
    let s := ((inFlight cap).after acts).state
    (s.holders : Int) ≤ cap ∧ (s.holders : Int) ≤ s.stored ∧ (s.Quiet → s.stored = s.holders) := by
  have hstart : Counted cap (inFlight cap).begin_.state :=
    ⟨rfl, Int.le_of_lt hcap, fun _ => rfl⟩
  have hcounted : Counted cap ((inFlight cap).after acts).state :=
    (inFlight cap).along_induct (I := fun c => Counted cap c.state)
      (fun _ _ hc ha => hc.step hcap ha) hstart h
  refine ⟨hcounted.within, ?_, fun hquiet => ?_⟩
  · have := hcounted.stored
    omega
  · rw [hcounted.stored, hquiet.1]
    simp

/-- One slot for two attempts: the second is refused, and the first gives its slot back. -/
theorem slots_within_cap_two :
    let acts : List InFlightAction := [.acquire, .acquire, .decr 1, .decr 0, .delete 0, .acquire]
    let s := ((inFlight 1).after acts).state
    (s.holders : Int) ≤ 1 ∧ (s.holders : Int) ≤ s.stored ∧ (s.Quiet → s.stored = s.holders) :=
  slots_within_cap (by decide) [.acquire, .acquire, .decr 1, .decr 0, .delete 0, .acquire] (by decide)

/-- An increment between the decrement and the delete: two dispatches hold the one slot. -/
theorem delete_forgets_slot :
    let acts : List InFlightAction := [.acquire, .decr 0, .acquire, .delete 0, .acquire]
    let s := ((inFlight 1).after acts).state
    s.holders = 2 ∧ s.stored = 1 ∧ s.Quiet := by
  decide

end Steps
end Meho.Dispatch
