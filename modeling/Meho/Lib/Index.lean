import Mathlib.Data.List.Basic

/- Partial unique indexes.

A table is a list of rows, and a row's id is its place in it. An index gives a
row the key it holds, or none: a row that is no longer live holds no key. The
rules below are the two ways a write can keep the index: rows only give up the
keys they hold (`of_subset`), or a new row takes a key nobody holds
(`append`). -/
namespace Meho.Lib

variable {ρ κ : Type}

/-- A row of a table one row longer is an old row or the new one. -/
theorem getElem?_snoc {rows : List ρ} {new r : ρ} {i : Nat}
    (h : (rows ++ [new])[i]? = some r) : rows[i]? = some r ∨ (i = rows.length ∧ r = new) := by
  rcases Nat.lt_or_ge i rows.length with hlt | hge
  · rw [List.getElem?_append_left hlt] at h
    exact .inl h
  · rw [List.getElem?_append_right hge] at h
    obtain ⟨hi, hnew⟩ := List.getElem?_eq_some_iff.mp h
    simp only [List.length_singleton] at hi
    refine .inr ⟨by omega, ?_⟩
    rw [← hnew]
    exact List.getElem_singleton hi

/-- A row of a table with one row replaced is the new one or an old one. -/
theorem getElem?_set_cases {rows : List ρ} {new r : ρ} {id i : Nat}
    (h : (rows.set id new)[i]? = some r) : (i = id ∧ r = new) ∨ (i ≠ id ∧ rows[i]? = some r) := by
  by_cases hi : i = id
  · subst hi
    rw [List.getElem?_set_self'] at h
    obtain ⟨_, -, hnew⟩ := Option.map_eq_some_iff.mp h
    exact .inl ⟨rfl, hnew.symm⟩
  · rw [List.getElem?_set_ne (Ne.symm hi)] at h
    exact .inr ⟨hi, h⟩

/-- Each key is held by at most one row. -/
def UniqueIndex (key : ρ → Option κ) (rows : List ρ) : Prop :=
  ∀ (i j : Nat) (r r' : ρ) (k : κ), rows[i]? = some r → rows[j]? = some r' →
    key r = some k → key r' = some k → i = j

namespace UniqueIndex
variable {key : ρ → Option κ} {rows rows' : List ρ}

theorem nil (key : ρ → Option κ) : UniqueIndex key [] := by
  intro i j r r' k hr
  simp at hr

/-- Every key that is held was held by the same row before. -/
theorem of_subset (h : UniqueIndex key rows)
    (hsub : ∀ (i : Nat) (r' : ρ) (k : κ), rows'[i]? = some r' → key r' = some k →
      ∃ r, rows[i]? = some r ∧ key r = some k) : UniqueIndex key rows' := by
  intro i j r r' k hi hj hk hk'
  obtain ⟨x, hx, hxk⟩ := hsub i r k hi hk
  obtain ⟨y, hy, hyk⟩ := hsub j r' k hj hk'
  exact h i j x y k hx hy hxk hyk

/-- A row is added whose key nobody holds. -/
theorem append (h : UniqueIndex key rows) {new : ρ}
    (hfree : ∀ (i : Nat) (r : ρ) (k : κ), rows[i]? = some r → key r = some k → key new ≠ some k) :
    UniqueIndex key (rows ++ [new]) := by
  intro i j r r' k hi hj hk hk'
  rcases getElem?_snoc hi with hold | ⟨hlast, hnew⟩
  · rcases getElem?_snoc hj with hold' | ⟨hlast', hnew'⟩
    · exact h i j r r' k hold hold' hk hk'
    · subst hnew'
      exact absurd hk' (hfree i r k hold hk)
  · rcases getElem?_snoc hj with hold' | ⟨hlast', hnew'⟩
    · subst hnew
      exact absurd hk (hfree j r' k hold' hk')
    · rw [hlast, hlast']

end UniqueIndex
end Meho.Lib
