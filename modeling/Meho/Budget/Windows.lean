import Meho.Auth.Operator
import Meho.Lib.Calendar
import Meho.Lib.Tx

/- The windows of a budget (operations/identity_budget.py).

A window is a day, a week from Monday, or a month, of UTC. A time is turned into the start
of its window and the start into the end; both raise where Python's dates end. The times
of a window are those from its start to before its end (`window_iff`), so that every time
is in exactly one window of each kind.

Correspondence: each function keeps its name. A point in time is its
microseconds from the day 0 of the calendar; `timedelta(days=n)` is `addDays`. -/
namespace Meho.Budget
open Meho.Lib Meho.Lib.Calendar

inductive WindowKind where
  | daily
  | weekly
  | monthly
  deriving DecidableEq, Repr

def WindowKind.value : WindowKind → String
  | .daily => "daily"
  | .weekly => "weekly"
  | .monthly => "monthly"

def allWindowKinds : List WindowKind := [.daily, .weekly, .monthly]

theorem mem_allWindowKinds (kind : WindowKind) : kind ∈ allWindowKinds := by
  cases kind <;> decide

inductive WindowError where
  /-- `ValueError("window_start_for requires an aware datetime")`. -/
  | naive
  /-- `OverflowError`: no date before the year 1 or after 9999. -/
  | overflow
  deriving DecidableEq, Repr

/-- `date.max.toordinal()`. -/
def maxOrdinal : Nat := 3652059

/-- Monday is 1. -/
def isoweekday (ord : Nat) : Nat := if ord % 7 = 0 then 7 else ord % 7

/-- The day of an aware time, in UTC. -/
def utcDay (when_ : DateTime) : Except WindowError Nat :=
  if when_.val.utcoffset.isNone then .error .naive
  else
    let ord := when_.instant / dayMicros
    if ord < 1 ∨ (maxOrdinal : Int) < ord then .error .overflow else .ok ord.toNat

/-- The first day of the window of a day. -/
def windowStartDay : WindowKind → Nat → Nat
  | .daily, ord => ord
  | .weekly, ord => ord - (isoweekday ord - 1)
  | .monthly, ord => monthStart ord

/-- Midnight of a day. -/
def midnight (ord : Nat) : Time := ord * dayMicros

def windowStartFor (kind : WindowKind) (when_ : DateTime) : Except WindowError Time :=
  (utcDay when_).map fun ord => midnight (windowStartDay kind ord)

def addDays (ord days : Nat) : Except WindowError Nat :=
  if maxOrdinal < ord + days then .error .overflow else .ok (ord + days)

/-- The first day after the window that begins on the day. -/
def windowEndDay (kind : WindowKind) (start : Nat) : Except WindowError Nat :=
  match kind with
  | .daily => addDays start 1
  | .weekly => addDays start 7
  | .monthly => (addDays start 32).map monthStart

def windowEndFor (kind : WindowKind) (start : Time) : Except WindowError Time :=
  (windowEndDay kind (start / dayMicros).toNat).map midnight

/-! ## The windows part time -/

variable {ord last : Nat}

theorem addDays_ok {days : Nat} (h : addDays ord days = .ok last) :
    last = ord + days ∧ last ≤ maxOrdinal := by
  unfold addDays at h
  split at h
  · cases h
  · obtain rfl := Except.ok.inj h
    exact ⟨rfl, by omega⟩

variable {kind : WindowKind}

theorem windowStartDay_eq_iff (h : 1 ≤ ord)
    (hend : windowEndDay kind (windowStartDay kind ord) = .ok last) {other : Nat}
    (hother : 1 ≤ other) :
    windowStartDay kind other = windowStartDay kind ord ↔
      windowStartDay kind ord ≤ other ∧ other < last := by
  cases kind with
  | daily =>
    obtain ⟨rfl, -⟩ := addDays_ok hend
    simp only [windowStartDay]
    omega
  | weekly =>
    obtain ⟨rfl, -⟩ := addDays_ok hend
    simp only [windowStartDay, isoweekday]
    split <;> split <;> omega
  | monthly =>
    obtain ⟨day, hday, rfl⟩ := except_map_eq_ok hend
    rw [(addDays_ok hday).1]
    show monthStart other = monthStart ord ↔
      monthStart ord ≤ other ∧ other < monthStart (monthStart ord + 32)
    rw [monthStart_next h]
    exact month_days_iff h hother

theorem windowEndDay_le {start : Nat} (h : windowEndDay kind start = .ok last) :
    last ≤ maxOrdinal := by
  cases kind with
  | daily | weekly => exact (addDays_ok h).2
  | monthly =>
    obtain ⟨day, hday, rfl⟩ := except_map_eq_ok h
    have hpos : 1 ≤ day := by
      have := (addDays_ok hday).1
      omega
    have := monthStart_add hpos
    have := (addDays_ok hday).2
    omega

theorem one_le_windowStartDay (kind : WindowKind) (h : 1 ≤ ord) : 1 ≤ windowStartDay kind ord := by
  cases kind with
  | daily => exact h
  | weekly =>
    simp only [windowStartDay, isoweekday]
    split <;> omega
  | monthly =>
    simp only [windowStartDay, monthStart, ymd2ord]
    omega

variable {when_ : DateTime}

theorem utcDay_ok (h : utcDay when_ = .ok ord) :
    when_.val.utcoffset.isSome ∧ 1 ≤ ord ∧ ord ≤ maxOrdinal ∧
      (ord : Int) = when_.instant / dayMicros := by
  unfold utcDay at h
  split at h
  · cases h
  · rename_i haware
    simp only at h
    split at h
    · cases h
    · rename_i hrange
      have hord := Except.ok.inj h
      rw [not_or, Int.not_lt, Int.not_lt] at hrange
      refine ⟨Option.isSome_iff_ne_none.mpr (by simpa using haware), ?_, ?_, ?_⟩ <;> omega

theorem dayMicros_pos : 0 < dayMicros := by decide

theorem midnight_day (ord : Nat) : (midnight ord / dayMicros).toNat = ord := by
  unfold midnight
  rw [Int.mul_ediv_cancel _ (by decide)]
  exact Int.toNat_natCast ord

theorem midnight_inj {a b : Nat} (h : midnight a = midnight b) : a = b := by
  have := congrArg (fun t : Time => (t / dayMicros).toNat) h
  simpa only [midnight_day] using this

/-- A time is from midnight on when its day is. -/
theorem midnight_le_iff (ord : Nat) (t : Time) : midnight ord ≤ t ↔ (ord : Int) ≤ t / dayMicros := by
  unfold midnight
  exact (Int.le_ediv_iff_mul_le dayMicros_pos).symm

variable {start : Time}

section
variable {last : Time} (hstart : windowStartFor kind when_ = .ok start)
    (hlast : windowEndFor kind start = .ok last)
include hstart hlast

/-- The times whose window starts with `start` are the aware ones from `start` to before its
 end. -/
theorem window_iff (other : DateTime) :
    windowStartFor kind other = .ok start ↔
      other.val.utcoffset.isSome ∧ start ≤ other.instant ∧ other.instant < last := by
  obtain ⟨ord, hord, rfl⟩ := except_map_eq_ok hstart
  obtain ⟨-, hone, -, -⟩ := utcDay_ok hord
  unfold windowEndFor at hlast
  rw [midnight_day] at hlast
  obtain ⟨lastDay, hend, rfl⟩ := except_map_eq_ok hlast
  have hdays := fun {o : Nat} => (windowStartDay_eq_iff hone hend : 1 ≤ o → _)
  have hfirst := one_le_windowStartDay kind hone
  rw [midnight_le_iff, ← Int.not_le, midnight_le_iff, Int.not_le]
  constructor
  · intro h
    obtain ⟨ord', hord', heq⟩ := except_map_eq_ok h
    obtain ⟨haware, hone', -, hday⟩ := utcDay_ok hord'
    have := (hdays hone').mp (midnight_inj heq.symm)
    refine ⟨haware, ?_, ?_⟩ <;> omega
  · rintro ⟨haware, hlow, hhigh⟩
    have hmax := windowEndDay_le hend
    have hday : utcDay other = .ok (other.instant / dayMicros).toNat := by
      unfold utcDay
      rw [if_neg (by simpa [Option.isSome_iff_ne_none] using haware)]
      exact if_neg (by omega)
    unfold windowStartFor
    rw [hday]
    show Except.ok (midnight (windowStartDay kind (other.instant / dayMicros).toNat)) = _
    rw [(hdays (by omega)).mpr (by omega)]

theorem window_self : start ≤ when_.instant ∧ when_.instant < last :=
  ((window_iff hstart hlast when_).mp hstart).2

end

theorem window_between {a b c : DateTime} {last : Time} (ha : windowStartFor kind a = .ok start)
    (hlast : windowEndFor kind start = .ok last) (hc : windowStartFor kind c = .ok start)
    (hab : a.instant ≤ b.instant) (hbc : b.instant ≤ c.instant) (haware : b.val.utcoffset.isSome) :
    windowStartFor kind b = .ok start := by
  have hlow := (window_self ha hlast).1
  have hhigh := (window_self hc hlast).2
  refine (window_iff ha hlast b).mpr ⟨haware, Int.le_trans hlow hab, Int.lt_of_le_of_lt hbc hhigh⟩

end Meho.Budget
