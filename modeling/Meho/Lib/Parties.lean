import Mathlib.Data.List.Basic

/- The parties of a system, each at some place of its work; one of them moves at a time.

The list has one entry for each party that ever came, in order of arrival, so that a party
is named by its number. `moveOne` is one move of one party. How many parties are at a place
changes by the one that leaves and the one that arrives (`countP_moveOne`), which is written
with additions only, so that `omega` can use it. -/
namespace Meho.Lib.Parties

variable {α : Type}

/-- Party `i` goes to `b`, when there is one. -/
def moveOne (parties : List α) (i : Nat) (b : α) : List α := parties.set i b

theorem countP_moveOne (p : α → Bool) {parties : List α} {i : Nat} {a : α}
    (h : parties[i]? = some a) (b : α) :
    (moveOne parties i b).countP p + (p a).toNat = parties.countP p + (p b).toNat := by
  unfold moveOne
  induction parties generalizing i with
  | nil => cases h
  | cons x xs ih =>
    cases i with
    | zero =>
      obtain rfl : x = a := Option.some.inj h
      simp only [List.set_cons_zero, List.countP_cons]
      cases p x <;> cases p b <;> simp
    | succ i =>
      have hxs := ih (i := i) h
      simp only [List.set_cons_succ, List.countP_cons]
      omega

theorem countP_arrive (p : α → Bool) (parties : List α) (a : α) :
    (parties ++ [a]).countP p = parties.countP p + (p a).toNat := by
  rw [List.countP_append]
  cases h : p a <;> simp [h]

section
variable {parties : List α} {i : Nat} {a : α} (h : parties[i]? = some a)
include h

theorem countP_pos_of_at {p : α → Bool} (ha : p a = true) : 0 < parties.countP p :=
  List.countP_pos_iff.mpr ⟨a, List.mem_of_getElem? h, ha⟩

theorem moveOne_at (b : α) : (moveOne parties i b)[i]? = some b := by
  have hi : i < parties.length := by
    by_contra hge
    rw [List.getElem?_eq_none (Nat.le_of_not_lt hge)] at h
    cases h
  exact List.getElem?_set_self hi

end

theorem moveOne_other (parties : List α) {i j : Nat} (hne : i ≠ j) (b : α) :
    (moveOne parties i b)[j]? = parties[j]? := List.getElem?_set_ne hne

end Meho.Lib.Parties
