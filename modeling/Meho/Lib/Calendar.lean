import Mathlib.Data.Nat.Find
import Meho.Lib.Iso8601

/- The year, the month and the day of the month of a day number.

`ymd2ord` numbers the days of the Gregorian calendar from 1. Here is the way back: the year
is the last one that begins before the day, the month the last one of that year that does.
`ymd2ord_ymd` and `yearOf_ymd2ord`, `monthOf_ymd2ord` say that the two are inverse, so that
the days of a month are the days with that year and month (`month_days_iff`), and the day
32 days after the first of a month is in the next one (`monthStart_next`). -/
namespace Meho.Lib.Calendar

/-! ## Lengths -/

def yearLength (year : Nat) : Nat := if isLeap year then 366 else 365

theorem isLeap_iff (year : Nat) : isLeap year = true ↔ 4 ∣ year ∧ (100 ∣ year → 400 ∣ year) := by
  simp only [isLeap, Bool.and_eq_true, Bool.or_eq_true, decide_eq_true_eq, Nat.dvd_iff_mod_eq_zero]
  omega

theorem daysBeforeYear_succ {year : Nat} (h : 1 ≤ year) :
    daysBeforeYear (year + 1) = daysBeforeYear year + yearLength year := by
  obtain ⟨n, rfl⟩ : ∃ n, year = n + 1 := ⟨year - 1, by omega⟩
  have hcenturies : n / 100 ≤ n / 4 := Nat.div_le_div_left (by decide) (by decide)
  have h4 : 100 ∣ n + 1 → 4 ∣ n + 1 := Nat.dvd_trans (by decide)
  have h100 : 400 ∣ n + 1 → 100 ∣ n + 1 := Nat.dvd_trans (by decide)
  have hleap := isLeap_iff (n + 1)
  simp only [daysBeforeYear, yearLength, Nat.add_sub_cancel, Nat.succ_div]
  generalize isLeap (n + 1) = leap at *
  generalize n / 4 = fours at *
  generalize n / 100 = centuries at *
  generalize n / 400 = cycles at *
  -- the year divided by nothing, by 4, by 100, or by 400
  by_cases d4 : 4 ∣ n + 1
  · by_cases d100 : 100 ∣ n + 1
    · by_cases d400 : 400 ∣ n + 1
      · simp only [d4, d100, d400, hleap.mpr ⟨d4, fun _ => d400⟩, if_true]
        omega
      · have hno : leap = false := Bool.eq_false_iff.mpr fun hl => d400 ((hleap.mp hl).2 d100)
        simp only [d4, d100, d400, hno, if_true, if_false, Bool.false_eq_true]
        omega
    · have d400 : ¬ 400 ∣ n + 1 := fun hd => d100 (h100 hd)
      simp only [d4, d100, d400, hleap.mpr ⟨d4, fun hd => absurd hd d100⟩, if_true, if_false]
      omega
  · have d100 : ¬ 100 ∣ n + 1 := fun hd => d4 (h4 hd)
    have d400 : ¬ 400 ∣ n + 1 := fun hd => d100 (h100 hd)
    have hno : leap = false := Bool.eq_false_iff.mpr fun hl => d4 (hleap.mp hl).1
    simp only [d4, d100, d400, hno, if_false, Bool.false_eq_true]
    omega

theorem daysBeforeYear_ge (year : Nat) : (year - 1) * 365 ≤ daysBeforeYear year := by
  unfold daysBeforeYear
  omega

theorem daysBeforeYear_mono {a b : Nat} (ha : 1 ≤ a) (hab : a ≤ b) :
    daysBeforeYear a ≤ daysBeforeYear b := by
  induction hab with
  | refl => exact Nat.le_refl _
  | step hle ih =>
    have hb := Nat.le_trans ha hle
    rw [Nat.succ_eq_add_one, daysBeforeYear_succ hb]
    omega

theorem daysInMonth_bounds (year month : Nat) :
    28 ≤ daysInMonth year month ∧ daysInMonth year month ≤ 31 := by
  unfold daysInMonth
  split
  · split <;> omega
  · split <;> omega

theorem daysBeforeMonth_succ {year month : Nat} (h : 1 ≤ month) :
    daysBeforeMonth year (month + 1) = daysBeforeMonth year month + daysInMonth year month := by
  obtain ⟨m, rfl⟩ : ∃ m, month = m + 1 := ⟨month - 1, by omega⟩
  unfold daysBeforeMonth
  simp only [Nat.add_sub_cancel]
  rw [List.range'_concat, List.map_append, List.sum_append]
  simp [Nat.add_comm]

theorem daysBeforeMonth_one (year : Nat) : daysBeforeMonth year 1 = 0 := rfl

theorem daysBeforeMonth_mono {year a b : Nat} (ha : 1 ≤ a) (hab : a ≤ b) :
    daysBeforeMonth year a ≤ daysBeforeMonth year b := by
  induction hab with
  | refl => exact Nat.le_refl _
  | step hle ih =>
    have hb := Nat.le_trans ha hle
    rw [Nat.succ_eq_add_one, daysBeforeMonth_succ hb]
    omega

/-- The months fill the year. -/
theorem daysBeforeMonth_thirteen (year : Nat) : daysBeforeMonth year 13 = yearLength year := by
  unfold daysBeforeMonth yearLength
  cases h : isLeap year <;> simp [List.range', daysInMonth, h]

/-! ## The year and the month of a day -/

def yearOf (ord : Nat) : Nat := Nat.findGreatest (fun year => daysBeforeYear year < ord) (ord / 365 + 1)

def monthOf (ord : Nat) : Nat :=
  Nat.findGreatest (fun month => daysBeforeYear (yearOf ord) + daysBeforeMonth (yearOf ord) month < ord) 12

def dayOf (ord : Nat) : Nat :=
  ord - (daysBeforeYear (yearOf ord) + daysBeforeMonth (yearOf ord) (monthOf ord))

section Of
variable {ord : Nat}

theorem one_le_yearOf (h : 1 ≤ ord) : 1 ≤ yearOf ord :=
  Nat.le_findGreatest (P := fun year => daysBeforeYear year < ord) (Nat.le_add_left 1 _) h

theorem daysBeforeYear_yearOf_lt (h : 1 ≤ ord) : daysBeforeYear (yearOf ord) < ord := by
  have hfirst : daysBeforeYear 1 < ord := h
  exact Nat.findGreatest_spec (P := fun year => daysBeforeYear year < ord)
    (Nat.le_add_left 1 (ord / 365)) hfirst

theorem le_daysBeforeYear_succ (ord : Nat) : ord ≤ daysBeforeYear (yearOf ord + 1) := by
  by_contra hlt
  by_cases hle : yearOf ord + 1 ≤ ord / 365 + 1
  · exact Nat.findGreatest_is_greatest (Nat.lt_add_one (yearOf ord)) hle (Nat.lt_of_not_le hlt)
  · have hge := daysBeforeYear_ge (yearOf ord + 1)
    omega

/-- A day between two new years is of the year in between. -/
theorem yearOf_eq {year : Nat} (hlow : daysBeforeYear year < ord)
    (hhigh : ord ≤ daysBeforeYear (year + 1)) : yearOf ord = year := by
  have hord : 1 ≤ ord := by omega
  have hbefore := daysBeforeYear_yearOf_lt hord
  have hafter := le_daysBeforeYear_succ ord
  rcases Nat.lt_trichotomy (yearOf ord) year with hlt | heq | hgt
  · have := daysBeforeYear_mono (Nat.le_add_left 1 _) (show yearOf ord + 1 ≤ year by omega)
    omega
  · exact heq
  · have := daysBeforeYear_mono (Nat.le_add_left 1 _) (show year + 1 ≤ yearOf ord by omega)
    omega

theorem one_le_monthOf (h : 1 ≤ ord) : 1 ≤ monthOf ord := by
  have hfirst : daysBeforeYear (yearOf ord) + daysBeforeMonth (yearOf ord) 1 < ord :=
    daysBeforeYear_yearOf_lt h
  exact Nat.le_findGreatest (by omega) hfirst

theorem monthOf_le (ord : Nat) : monthOf ord ≤ 12 := Nat.findGreatest_le 12

theorem monthOf_spec (h : 1 ≤ ord) :
    daysBeforeYear (yearOf ord) + daysBeforeMonth (yearOf ord) (monthOf ord) < ord := by
  have hfirst : daysBeforeYear (yearOf ord) + daysBeforeMonth (yearOf ord) 1 < ord :=
    daysBeforeYear_yearOf_lt h
  exact Nat.findGreatest_spec
    (P := fun month => daysBeforeYear (yearOf ord) + daysBeforeMonth (yearOf ord) month < ord)
    (by omega : 1 ≤ 12) hfirst

theorem le_month_succ (h : 1 ≤ ord) :
    ord ≤ daysBeforeYear (yearOf ord) + daysBeforeMonth (yearOf ord) (monthOf ord + 1) := by
  by_contra hlt
  by_cases hle : monthOf ord + 1 ≤ 12
  · exact Nat.findGreatest_is_greatest (Nat.lt_add_one (monthOf ord)) hle (Nat.lt_of_not_le hlt)
  · have hlast : monthOf ord = 12 := by
      have := monthOf_le ord
      omega
    have hyear := le_daysBeforeYear_succ ord
    rw [daysBeforeYear_succ (one_le_yearOf h), ← daysBeforeMonth_thirteen] at hyear
    rw [hlast, show 12 + 1 = 13 from rfl] at hlt
    omega

theorem dayOf_bounds (h : 1 ≤ ord) : 1 ≤ dayOf ord ∧ dayOf ord ≤ daysInMonth (yearOf ord)
    (monthOf ord) := by
  have hlow := monthOf_spec h
  have hhigh := le_month_succ h
  rw [daysBeforeMonth_succ (one_le_monthOf h)] at hhigh
  unfold dayOf
  omega

theorem ymd2ord_ymd (h : 1 ≤ ord) : ymd2ord (yearOf ord) (monthOf ord) (dayOf ord) = ord := by
  have hlow := monthOf_spec h
  unfold ymd2ord dayOf
  omega

end Of

section Back
variable {year month day : Nat}

section
variable (hyear : 1 ≤ year) (hmonth : 1 ≤ month) (hmonth' : month ≤ 12) (hday : 1 ≤ day)
    (hday' : day ≤ daysInMonth year month)
include hyear hmonth hmonth' hday hday'

theorem yearOf_ymd2ord : yearOf (ymd2ord year month day) = year := by
  have hend : daysBeforeMonth year month + daysInMonth year month ≤ yearLength year := by
    rw [← daysBeforeMonth_succ hmonth, ← daysBeforeMonth_thirteen]
    exact daysBeforeMonth_mono (by omega) (by omega)
  refine yearOf_eq ?_ ?_
  · unfold ymd2ord
    omega
  · rw [daysBeforeYear_succ hyear]
    unfold ymd2ord
    omega

theorem monthOf_ymd2ord : monthOf (ymd2ord year month day) = month := by
  have hord : 1 ≤ ymd2ord year month day := by
    unfold ymd2ord
    omega
  have hlow := monthOf_spec hord
  have hhigh := le_month_succ hord
  rw [yearOf_ymd2ord hyear hmonth hmonth' hday hday'] at hlow hhigh
  generalize monthOf (ymd2ord year month day) = m at hlow hhigh
  unfold ymd2ord at hlow hhigh
  rcases Nat.lt_trichotomy m month with hlt | heq | hgt
  · have : daysBeforeMonth year _ ≤ daysBeforeMonth year _ :=
      daysBeforeMonth_mono (Nat.le_add_left 1 _) (show m + 1 ≤ month by omega)
    omega
  · exact heq
  · have hstep : daysBeforeMonth year _ = daysBeforeMonth year _ + _ := daysBeforeMonth_succ hmonth
    have : daysBeforeMonth year _ ≤ daysBeforeMonth year _ :=
      daysBeforeMonth_mono (Nat.le_add_left 1 _) (show month + 1 ≤ m by omega)
    omega

end

end Back

/-! ## Months -/

/-- The first day of the month of a day. -/
def monthStart (ord : Nat) : Nat := ymd2ord (yearOf ord) (monthOf ord) 1

section Months
variable {ord : Nat}

theorem monthStart_add (h : 1 ≤ ord) : monthStart ord + (dayOf ord - 1) = ord := by
  have hday := (dayOf_bounds h).1
  calc monthStart ord + (dayOf ord - 1)
      = ymd2ord (yearOf ord) (monthOf ord) (dayOf ord) := by unfold monthStart ymd2ord; omega
    _ = ord := ymd2ord_ymd h

/-- The days with the same first day of the month are those up to the next month. -/
theorem month_days_iff (h : 1 ≤ ord) {other : Nat} (hother : 1 ≤ other) :
    monthStart other = monthStart ord ↔ monthStart ord ≤ other ∧
      other < monthStart ord + daysInMonth (yearOf ord) (monthOf ord) := by
  constructor
  · intro heq
    have hlen := daysInMonth_bounds (yearOf ord) (monthOf ord)
    have hlen' := daysInMonth_bounds (yearOf other) (monthOf other)
    have hyear : yearOf other = yearOf ord := by
      have h1 := yearOf_ymd2ord (one_le_yearOf h) (one_le_monthOf h) (monthOf_le ord)
        (Nat.le_refl 1) (by omega)
      have h2 := yearOf_ymd2ord (one_le_yearOf hother) (one_le_monthOf hother) (monthOf_le other)
        (Nat.le_refl 1) (by omega)
      exact h2.symm.trans ((congrArg yearOf heq).trans h1)
    have hmonth : monthOf other = monthOf ord := by
      have h1 := monthOf_ymd2ord (one_le_yearOf h) (one_le_monthOf h) (monthOf_le ord)
        (Nat.le_refl 1) (by omega)
      have h2 := monthOf_ymd2ord (one_le_yearOf hother) (one_le_monthOf hother) (monthOf_le other)
        (Nat.le_refl 1) (by omega)
      exact h2.symm.trans ((congrArg monthOf heq).trans h1)
    have hday := dayOf_bounds hother
    rw [hyear, hmonth] at hday
    have hadd := monthStart_add hother
    omega
  · rintro ⟨hlow, hhigh⟩
    have hdate : other = ymd2ord (yearOf ord) (monthOf ord) (other - monthStart ord + 1) := by
      unfold monthStart ymd2ord at *
      omega
    have hyear : yearOf other = yearOf ord := by
      rw [hdate]
      exact yearOf_ymd2ord (one_le_yearOf h) (one_le_monthOf h) (monthOf_le ord) (by omega) (by omega)
    have hmonth : monthOf other = monthOf ord := by
      rw [hdate]
      exact monthOf_ymd2ord (one_le_yearOf h) (one_le_monthOf h) (monthOf_le ord) (by omega) (by omega)
    unfold monthStart
    rw [hyear, hmonth]

/-- The next month begins when the month is over. -/
theorem monthStart_next (h : 1 ≤ ord) :
    monthStart (monthStart ord + 32) =
      monthStart ord + daysInMonth (yearOf ord) (monthOf ord) := by
  have hyear := one_le_yearOf h
  have hmonth := one_le_monthOf h
  have hmonth' := monthOf_le ord
  have hlen := daysInMonth_bounds (yearOf ord) (monthOf ord)
  by_cases hlast : monthOf ord = 12
  · -- the first of January
    have hnext : monthStart ord + daysInMonth (yearOf ord) (monthOf ord) =
        ymd2ord (yearOf ord + 1) 1 1 := by
      have hdec : daysBeforeMonth (yearOf ord) _ = daysBeforeMonth (yearOf ord) _ + _ :=
        daysBeforeMonth_succ hmonth
      rw [hlast] at hdec
      unfold monthStart ymd2ord
      rw [daysBeforeYear_succ hyear, ← daysBeforeMonth_thirteen, daysBeforeMonth_one, hlast, hdec]
      omega
    have hdate : monthStart ord + 32 = ymd2ord (yearOf ord + 1) 1
        (33 - daysInMonth (yearOf ord) (monthOf ord)) := by
      unfold ymd2ord at hnext ⊢
      omega
    have hjan := daysInMonth_bounds (yearOf ord + 1) 1
    rw [hnext, hdate]
    unfold monthStart
    rw [yearOf_ymd2ord (by omega) (by omega) (by omega) (by omega) (by omega),
      monthOf_ymd2ord (by omega) (by omega) (by omega) (by omega) (by omega)]
  · have hnext : monthStart ord + daysInMonth (yearOf ord) (monthOf ord) =
        ymd2ord (yearOf ord) (monthOf ord + 1) 1 := by
      unfold monthStart ymd2ord
      rw [daysBeforeMonth_succ hmonth]
      omega
    have hdate : monthStart ord + 32 = ymd2ord (yearOf ord) (monthOf ord + 1)
        (33 - daysInMonth (yearOf ord) (monthOf ord)) := by
      unfold ymd2ord at hnext ⊢
      omega
    have hnextlen := daysInMonth_bounds (yearOf ord) (monthOf ord + 1)
    rw [hnext, hdate]
    unfold monthStart
    rw [yearOf_ymd2ord hyear (by omega) (by omega) (by omega) (by omega),
      monthOf_ymd2ord hyear (by omega) (by omega) (by omega) (by omega)]

end Months
end Meho.Lib.Calendar
