import Mathlib.Data.Int.Order.Basic

/- A cool-down key that numbered parties claim and clear in the order of their numbers.

A claim wins if the key is not there or has expired; it then sets the key for the time
of the window. A clear removes the key. `Runs w log key` is a run of such operations:
the log of them and the key they leave. Each party has one operation, and the numbers
grow along the log.

Three rules: wins without a clear between them are a window apart (`spaced`); a claim
with no other claim between it and a clear wins (`wins_after_clear`); what is claimed
stands until it is cleared (`standing`). -/
namespace Meho.Lib.Cooldown

/-- A claim of the key, or its removal. -/
inductive Op where
  | claim (t : Int) (won : Bool)
  | clear
  deriving DecidableEq

/-- A key that expires is there. -/
def present (key : Option Int) (t : Int) : Bool := key.any (t < ·)

/-- The key after a claim. -/
def afterClaim (w : Int) (key : Option Int) (t : Int) : Option Int :=
  if present key t then key else some (t + w)

/-- The runs of operations in the order of the parties' numbers. -/
inductive Runs (w : Int) : List (Nat × Op) → Option Int → Prop where
  | nil : Runs w [] none
  | claim {log : List (Nat × Op)} {key : Option Int} (h : Runs w log key) {k : Nat} (t : Int)
      (hk : ∀ x ∈ log, x.1 < k) :
    Runs w (log ++ [(k, .claim t (!present key t))]) (afterClaim w key t)
  | clear {log : List (Nat × Op)} {key : Option Int} (h : Runs w log key) {k : Nat}
      (hk : ∀ x ∈ log, x.1 < k) : Runs w (log ++ [(k, .clear)]) none

section Rules
variable {w : Int} {log : List (Nat × Op)} {key : Option Int}

theorem mem_snoc {x y : Nat × Op} (h : x ∈ log ++ [y]) : x ∈ log ∨ x = y := by
  rcases List.mem_append.mp h with h | h
  · exact .inl h
  · exact .inr (List.mem_singleton.mp h)

theorem le_of_not_present {e t : Int} (hkey : key = some e) (h : present key t = false) : e ≤ t := by
  rw [hkey] at h
  have hlt := of_decide_eq_false h
  omega

section
variable (hw : 0 ≤ w) (h : Runs w log key) {i : Nat} {t : Int} (hi : (i, .claim t true) ∈ log)
include hw h hi

theorem standing : (∃ r, i < r ∧ (r, .clear) ∈ log) ∨ ∃ e, key = some e ∧ t + w ≤ e := by
  induction h with
  | nil => cases hi
  | claim hrun t' hk ih =>
    rename_i log key k
    rcases mem_snoc hi with hi | hi
    · rcases ih hi with ⟨r, hr, hmem⟩ | ⟨e, hkey, hle⟩
      · exact .inl ⟨r, hr, List.mem_append_left _ hmem⟩
      · refine .inr ?_
        unfold afterClaim
        cases hpresent : present key t' with
        | true => exact ⟨e, hkey, hle⟩
        | false =>
          have het := le_of_not_present hkey hpresent
          exact ⟨t' + w, rfl, by omega⟩
    · have heq := (Prod.mk.inj hi).2
      injection heq with ht hwon
      refine .inr ⟨t + w, ?_, Int.le_refl _⟩
      unfold afterClaim
      rw [if_neg (by simpa using hwon), ht]
  | clear hrun hk ih =>
    rename_i log key k
    rcases mem_snoc hi with hi | hi
    · exact .inl ⟨k, hk _ hi, List.mem_append_right _ List.mem_cons_self⟩
    · cases (Prod.mk.inj hi).2

theorem spaced {j : Nat} {t' : Int} (hj : (j, .claim t' true) ∈ log) (hij : i < j) :
    (∃ r, i < r ∧ r < j ∧ (r, .clear) ∈ log) ∨ t + w ≤ t' := by
  induction h with
  | nil => cases hi
  | claim hrun u hk ih =>
    rename_i log key k
    rcases mem_snoc hj with hj | hj
    · rcases mem_snoc hi with hi | hi
      · rcases ih hi hj with ⟨r, hir, hrj, hmem⟩ | hle
        · exact .inl ⟨r, hir, hrj, List.mem_append_left _ hmem⟩
        · exact .inr hle
      · -- the later party came first
        have hkj := hk _ hj
        rw [(Prod.mk.inj hi).1] at hij
        exact absurd hij (Nat.lt_asymm hkj)
    · obtain ⟨rfl, heq⟩ := Prod.mk.inj hj
      injection heq with ht hwon
      subst ht
      rcases mem_snoc hi with hi | hi
      · rcases standing hw hrun hi with ⟨r, hir, hmem⟩ | ⟨e, hkey, hle⟩
        · exact .inl ⟨r, hir, hk _ hmem, List.mem_append_left _ hmem⟩
        · have het := le_of_not_present hkey (by simpa using hwon.symm)
          exact .inr (Int.le_trans hle het)
      · exact absurd (Prod.mk.inj hi).1 (Nat.ne_of_lt hij)
  | clear hrun hk ih =>
    rename_i log key k
    rcases mem_snoc hi with hi | hi
    · rcases mem_snoc hj with hj | hj
      · rcases ih hi hj with ⟨r, hir, hrj, hmem⟩ | hle
        · exact .inl ⟨r, hir, hrj, List.mem_append_left _ hmem⟩
        · exact .inr hle
      · cases (Prod.mk.inj hj).2
    · cases (Prod.mk.inj hi).2

end

section
variable (h : Runs w log key) {r : Nat}
include h

/-- A key is not there after a clear that no claim has followed. -/
theorem cleared (hr : (r, .clear) ∈ log) (hlast : ∀ i t won, (i, .claim t won) ∈ log → i < r) :
    key = none := by
  induction h with
  | nil => rfl
  | claim hrun u hk ih =>
    rename_i log key k
    have hbefore := hlast k u _ (List.mem_append_right _ List.mem_cons_self)
    rcases mem_snoc hr with hr | hr
    · exact absurd hbefore (Nat.lt_asymm (hk _ hr))
    · cases (Prod.mk.inj hr).2
  | clear hrun hk ih => rfl

theorem one_operation {op op' : Op} (hop : (r, op) ∈ log) (hop' : (r, op') ∈ log) : op = op' := by
  -- the numbers grow, so the last operation is of a party that has no other
  have snoc {log : List (Nat × Op)} {x : Nat × Op} (hx : ∀ y ∈ log, y.1 < x.1)
      (ih : (r, op) ∈ log → (r, op') ∈ log → op = op') (hop : (r, op) ∈ log ++ [x])
      (hop' : (r, op') ∈ log ++ [x]) : op = op' := by
    rcases mem_snoc hop with hop | rfl <;> rcases mem_snoc hop' with hop' | hop'
    · exact ih hop hop'
    · exact absurd (hx _ hop) (hop' ▸ Nat.lt_irrefl _)
    · exact absurd (hx _ hop') (Nat.lt_irrefl _)
    · exact (Prod.mk.inj hop').2.symm
  induction h with
  | nil => cases hop
  | claim hrun u hk ih | clear hrun hk ih => exact snoc hk ih hop hop'

/-- **A claim wins if no claim stands between it and a clear.** -/
theorem wins_after_clear {j : Nat} {t : Int} {won : Bool} (hr : (r, .clear) ∈ log)
    (hj : (j, .claim t won) ∈ log) (hrj : r < j)
    (hnone : ∀ i t won, r < i → i < j → (i, .claim t won) ∉ log) : won = true := by
  induction h with
  | nil => cases hr
  | claim hrun u hk ih =>
    rename_i log key k
    have hr' : (r, .clear) ∈ log := by
      rcases mem_snoc hr with hr | hr
      · exact hr
      · cases (Prod.mk.inj hr).2
    rcases mem_snoc hj with hj | hj
    · exact ih hr' hj fun i t won hri hij hmem => hnone i t won hri hij (List.mem_append_left _ hmem)
    · obtain ⟨rfl, heq⟩ := Prod.mk.inj hj
      injection heq with ht hwon
      have hkey : key = none := by
        refine cleared hrun hr' ?_
        intro i t' won' hmem
        rcases Nat.lt_trichotomy i r with hlt | rfl | hgt
        · exact hlt
        · -- a party has one operation
          cases one_operation hrun hr' hmem
        · exact absurd (List.mem_append_left _ hmem) (hnone i t' won' hgt (hk _ hmem))
      rw [hwon, hkey]
      rfl
  | clear hrun hk ih =>
    rename_i log key k
    have hj' : (j, .claim t won) ∈ log := by
      rcases mem_snoc hj with hj | hj
      · exact hj
      · cases (Prod.mk.inj hj).2
    rcases mem_snoc hr with hr | hr
    · exact ih hr hj' fun i t won hri hij hmem => hnone i t won hri hij (List.mem_append_left _ hmem)
    · rw [(Prod.mk.inj hr).1] at hrj
      exact absurd hrj (Nat.lt_asymm (hk _ hj'))

end

end Rules
end Meho.Lib.Cooldown
