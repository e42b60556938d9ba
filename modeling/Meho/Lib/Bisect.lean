import Mathlib.Data.Nat.Init

/- The largest number in a range that passes a test, found by halving the range.

The test is passed by every number below one that passes it. `bisect_largest`: the
number found is the largest of the range, and it passes unless nothing above the low
 end does. -/
namespace Meho.Lib.Bisect

def bisect (passes : Nat → Bool) (low high : Nat) : Nat :=
  if low < high then
    let probe := (low + high + 1) / 2
    if passes probe then bisect passes probe high else bisect passes low (probe - 1)
  else low
termination_by high - low

variable {passes : Nat → Bool} {low high : Nat}

theorem bisect_mem (passes : Nat → Bool) (h : low ≤ high) :
    low ≤ bisect passes low high ∧ bisect passes low high ≤ high := by
  fun_induction bisect passes low high with
  | case1 low high hlt probe _ ih | case2 low high hlt probe _ ih =>
    have := ih (by omega)
    omega
  | case3 low high hge => omega

theorem bisect_passes :
    bisect passes low high = low ∨ passes (bisect passes low high) = true := by
  fun_induction bisect passes low high with
  | case1 low high hlt probe hprobe ih =>
    rcases ih with heq | hpass
    · rw [heq]
      exact .inr hprobe
    · exact .inr hpass
  | case2 low high hlt probe _ ih => exact ih
  | case3 low high hge => exact .inl rfl

/-- Whatever passes in the range is at most the number found. -/
theorem bisect_largest (hdown : ∀ m n, m ≤ n → passes n = true → passes m = true) {n : Nat}
    (hn : passes n = true) (hhigh : n ≤ high) : n ≤ bisect passes low high := by
  fun_induction bisect passes low high with
  | case1 low high hlt probe _ ih => exact ih hhigh
  | case2 low high hlt probe hprobe ih =>
    have hbelow : ¬ probe ≤ n := fun hle => hprobe (hdown probe n hle hn)
    exact ih (by omega)
  | case3 low high hge => omega

end Meho.Lib.Bisect
