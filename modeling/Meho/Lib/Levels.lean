import Mathlib.Data.Nat.Init
import Mathlib.Tactic.Push

/- The levels of a relation around a root.

`WalkLen step a k b` says that some walk of `k` steps leads from `a` to `b`, and
`Dist step a k b` that no shorter one does. A search level by level meets each point at
its distance (`dist_succ_iff`), and so does any search that follows walks. -/
namespace Meho.Lib

section Levels
variable {α : Type} (step : α → α → Prop) (a : α)

/-- Some walk of `k` steps leads from `a` to the point. -/
def WalkLen : Nat → α → Prop
  | 0, b => b = a
  | k + 1, b => ∃ p, WalkLen k p ∧ step p b

/-- The shortest walks from `a` to the point have `k` steps. -/
def Dist (k : Nat) (b : α) : Prop := WalkLen step a k b ∧ ∀ j < k, ¬WalkLen step a j b

variable {step a}

variable {k : Nat} {b : α}

theorem WalkLen.mono {step' : α → α → Prop} (h : ∀ p b, step p b → step' p b)
    (hwalk : WalkLen step a k b) : WalkLen step' a k b := by
  induction k generalizing b with
  | zero => exact hwalk
  | succ k ih =>
    obtain ⟨p, hp, hstep⟩ := hwalk
    exact ⟨p, ih hp, h p b hstep⟩

theorem WalkLen.prepend {c : α} (hstep : step a c) (h : WalkLen step c k b) :
    WalkLen step a (k + 1) b := by
  induction k generalizing b with
  | zero =>
    cases h
    exact ⟨a, rfl, hstep⟩
  | succ k ih =>
    obtain ⟨p, hp, hlast⟩ := h
    exact ⟨p, ih hp, hlast⟩

theorem WalkLen.backwards (hsymm : ∀ p b, step p b → step b p) (h : WalkLen step a k b) :
    WalkLen step b k a := by
  induction k generalizing b with
  | zero => exact Eq.symm h
  | succ k ih =>
    obtain ⟨p, hp, hstep⟩ := h
    exact (ih hp).prepend (hsymm p b hstep)

theorem Dist.unique {j : Nat} (hj : Dist step a j b) (hk : Dist step a k b) : j = k := by
  apply Nat.le_antisymm
  · exact Nat.le_of_not_lt fun hlt => hj.2 k hlt hk.1
  · exact Nat.le_of_not_lt fun hlt => hk.2 j hlt hj.1

theorem dist_zero : Dist step a 0 b ↔ b = a :=
  ⟨fun h => h.1, fun h => ⟨h, fun _ hj => absurd hj (Nat.not_lt_zero _)⟩⟩

/-- What a walk reaches has a distance, no longer than the walk. -/
theorem exists_dist (h : WalkLen step a k b) : ∃ j ≤ k, Dist step a j b := by
  induction k using Nat.strongRecOn with
  | ind k ih =>
    by_cases hshorter : ∃ j < k, WalkLen step a j b
    · obtain ⟨j, hj, hwalk⟩ := hshorter
      obtain ⟨i, hi, hdist⟩ := ih j hj hwalk
      exact ⟨i, Nat.le_trans hi (Nat.le_of_lt hj), hdist⟩
    · exact ⟨k, Nat.le_refl k, h, fun j hj hwalk => hshorter ⟨j, hj, hwalk⟩⟩

theorem Dist.prev {p : α} (h : Dist step a (k + 1) b) (hwalk : WalkLen step a k p)
    (hstep : step p b) : Dist step a k p :=
  ⟨hwalk, fun j hj hshort => h.2 (j + 1) (Nat.succ_lt_succ hj) ⟨p, hshort, hstep⟩⟩

/-- The next level: what a step reaches from a level and no level up to it holds. -/
theorem dist_succ_iff : Dist step a (k + 1) b ↔
    (∃ p, Dist step a k p ∧ step p b) ∧ ∀ j ≤ k, ¬Dist step a j b := by
  constructor
  · intro h
    obtain ⟨p, hwalk, hstep⟩ := h.1
    refine ⟨⟨p, h.prev hwalk hstep, hstep⟩, fun j hj hdist => ?_⟩
    exact h.2 j (Nat.lt_succ_of_le hj) hdist.1
  · rintro ⟨⟨p, hp, hstep⟩, hnone⟩
    refine ⟨⟨p, hp.1, hstep⟩, fun j hj hwalk => ?_⟩
    obtain ⟨i, hi, hdist⟩ := exists_dist hwalk
    exact hnone i (Nat.le_trans hi (Nat.le_of_lt_succ hj)) hdist

theorem no_dist_of_empty (h : ∀ b, ¬Dist step a k b) {j : Nat} (hj : k ≤ j) :
    ∀ b, ¬Dist step a j b := by
  induction j, hj using Nat.le_induction with
  | base => exact h
  | succ j _ ih =>
    intro b hb
    obtain ⟨⟨p, hp, -⟩, -⟩ := dist_succ_iff.mp hb
    exact ih p hp

theorem WalkLen.append {j : Nat} {c : α} (h : WalkLen step a k b) (h' : WalkLen step b j c) :
    WalkLen step a (k + j) c := by
  induction j generalizing c with
  | zero => exact h' ▸ h
  | succ j ih =>
    obtain ⟨p, hp, hstep⟩ := h'
    exact ⟨p, ih hp, hstep⟩

section Return
variable {step' : α → α → Prop} (hmono : ∀ p b, step p b → step' p b)
  (hback : ∀ p b, step' p b → b = a ∨ step p b)
include hback

theorem WalkLen.without_return (h : WalkLen step' a k b) : ∃ j ≤ k, WalkLen step a j b := by
  induction k generalizing b with
  | zero => exact ⟨0, Nat.le_refl 0, h⟩
  | succ k ih =>
    obtain ⟨p, hp, hstep⟩ := h
    obtain rfl | hstep := hback p b hstep
    · exact ⟨0, Nat.zero_le _, rfl⟩
    · obtain ⟨j, hj, hwalk⟩ := ih hp
      exact ⟨j + 1, Nat.succ_le_succ hj, p, hwalk, hstep⟩

include hmono

/-- Steps back to the start change no distance. -/
theorem dist_iff_of_return : Dist step a k b ↔ Dist step' a k b := by
  constructor
  · intro h
    refine ⟨h.1.mono hmono, fun j hj hwalk => ?_⟩
    obtain ⟨i, hi, hshort⟩ := hwalk.without_return hback
    exact h.2 i (Nat.lt_of_le_of_lt hi hj) hshort
  · intro h
    obtain ⟨j, hj, hwalk⟩ := h.1.without_return hback
    have heq : j = k := Nat.le_antisymm hj (Nat.le_of_not_lt fun hlt => h.2 j hlt (hwalk.mono hmono))
    exact ⟨heq ▸ hwalk, fun i hi hshort => h.2 i hi (hshort.mono hmono)⟩

end Return

end Levels

end Meho.Lib
