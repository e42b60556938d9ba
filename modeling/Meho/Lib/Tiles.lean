import Mathlib.Data.Finset.Card
import Mathlib.Data.Finset.Interval
import Mathlib.Order.Interval.Finset.Nat

/- Numbers that are handed out without holes, read in ranges laid end to end.

A range `(a, b)` stands for the numbers above `a` and up to `b`. `Tiled` ranges cover no
number twice (`Tiled.apart`). Where
every number of a range was handed out, counting the ones that are found tells whether any
is missing (`all_present`). A full page of rows in strict order holds the rows up to its
last one (`take_eq_filter`). -/
namespace Meho.Lib

/-! ## Ranges end to end -/

def Tiled : Nat → List (Nat × Nat) → Nat → Prop
  | start, [], stop => start = stop
  | start, r :: rs, stop => r.1 = start ∧ r.1 ≤ r.2 ∧ Tiled r.2 rs stop

variable {start stop : Nat} {rs : List (Nat × Nat)}

theorem Tiled.snoc {upTo : Nat} (h : Tiled start rs stop) (hle : stop ≤ upTo) :
    Tiled start (rs ++ [(stop, upTo)]) upTo := by
  induction rs generalizing start with
  | nil =>
    obtain rfl : start = stop := h
    exact ⟨rfl, hle, rfl⟩
  | cons r rs ih =>
    obtain ⟨hr, hrange, hrest⟩ := h
    exact ⟨hr, hrange, ih hrest⟩

theorem Tiled.start_le (h : Tiled start rs stop) :
    start ≤ stop ∧ ∀ r ∈ rs, start ≤ r.1 ∧ r.2 ≤ stop := by
  induction rs generalizing start with
  | nil => exact ⟨Nat.le_of_eq h, fun r hr => by cases hr⟩
  | cons r rs ih =>
    obtain ⟨rfl, hrange, hrest⟩ := h
    obtain ⟨hle, hall⟩ := ih hrest
    refine ⟨Nat.le_trans hrange hle, fun r' hr' => ?_⟩
    rcases List.mem_cons.mp hr' with rfl | hr'
    · exact ⟨Nat.le_refl _, hle⟩
    · have := hall r' hr'
      omega

theorem Tiled.apart (h : Tiled start rs stop) : rs.Pairwise fun r r' => r.2 ≤ r'.1 := by
  induction rs generalizing start with
  | nil => exact List.Pairwise.nil
  | cons r rs ih =>
    obtain ⟨-, -, hrest⟩ := h
    exact List.pairwise_cons.mpr ⟨fun r' hr' => (hrest.start_le.2 r' hr').1, ih hrest⟩

/-- As many different numbers of a range as it has are all of them. -/
theorem all_present {xs : List Nat} {after upTo : Nat} (hnodup : xs.Nodup)
    (hin : ∀ n ∈ xs, after < n ∧ n ≤ upTo) (hcount : upTo ≤ after + xs.length) {n : Nat}
    (hlow : after < n) (hup : n ≤ upTo) : n ∈ xs := by
  have hsub : xs.toFinset ⊆ Finset.Ioc after upTo := by
    intro m hm
    exact Finset.mem_Ioc.mpr (hin m (List.mem_toFinset.mp hm))
  have hcard : (Finset.Ioc after upTo).card ≤ xs.toFinset.card := by
    rw [Nat.card_Ioc, List.toFinset_card_of_nodup hnodup]
    omega
  rw [← List.mem_toFinset, Finset.eq_of_subset_of_card_le hsub hcard]
  exact Finset.mem_Ioc.mpr ⟨hlow, hup⟩

section Pages
variable {ρ : Type} {number : ρ → Nat}

theorem take_eq_filter {xs : List ρ} (h : xs.Pairwise fun a b => number a < number b) {k : Nat}
    {last : ρ} (hlast : (xs.take k).getLast? = some last) :
    xs.take k = xs.filter fun r => number r ≤ number last := by
  have hsplit : (xs.take k ++ xs.drop k).Pairwise fun a b => number a < number b := by
    rwa [List.take_append_drop]
  obtain ⟨htake, -, hacross⟩ := List.pairwise_append.mp hsplit
  have hlower : ∀ r ∈ xs.take k, number r ≤ number last := by
    intro r hr
    rw [← List.dropLast_append_getLast? _ hlast] at hr htake
    rcases List.mem_append.mp hr with hr | hr
    · exact Nat.le_of_lt ((List.pairwise_append.mp htake).2.2 r hr last List.mem_cons_self)
    · rw [List.mem_singleton.mp hr]
  have hupper : ∀ r ∈ xs.drop k, ¬ number r ≤ number last := fun r hr =>
    Nat.not_le_of_lt (hacross last (List.mem_of_getLast? hlast) r hr)
  calc xs.take k
      = (xs.take k).filter (fun r => number r ≤ number last) ++
          (xs.drop k).filter (fun r => number r ≤ number last) := by
        rw [List.filter_eq_self.mpr fun r hr => decide_eq_true (hlower r hr),
          List.filter_eq_nil_iff.mpr fun r hr => by simpa using hupper r hr, List.append_nil]
    _ = xs.filter fun r => number r ≤ number last := by
        rw [← List.filter_append, List.take_append_drop]

end Pages
end Meho.Lib
