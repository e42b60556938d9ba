import Mathlib.Data.List.Basic

/- One-way flags set by conditional writes.

A latch is open until one write closes it, and nothing opens it again. The
write asks that the latch is open, so of any number of writers one wins. `on`
says which latches are closed in a state, `flip` which latch an event reports
closed; `Latched` is the law that the history reports each closed latch once
and no other. A system keeps it when each of its steps either reports nothing
and leaves every latch as it is (`keep`), or closes one open latch and reports
it (`close`). -/
namespace Meho.Lib

variable {κ ε : Type} [DecidableEq κ]

/-- How often the events report the latch closed. -/
def flips (flip : ε → Option κ) (k : κ) (events : List ε) : Nat :=
  events.countP fun e => flip e = some k

/-- Each closed latch was reported once, an open one never. -/
def Latched (flip : ε → Option κ) (on : κ → Bool) (events : List ε) : Prop :=
  ∀ k, flips flip k events = if on k then 1 else 0

section Flips
variable (flip : ε → Option κ)

theorem flips_append (k : κ) (xs ys : List ε) :
    flips flip k (xs ++ ys) = flips flip k xs + flips flip k ys := List.countP_append

theorem flips_eq_zero {k : κ} {events : List ε} (h : ∀ e ∈ events, flip e = none) :
    flips flip k events = 0 := by
  refine List.countP_eq_zero.mpr fun e he => ?_
  simp [h e he]

theorem flips_pos {k : κ} {events : List ε} :
    0 < flips flip k events ↔ ∃ e ∈ events, flip e = some k := by
  unfold flips
  rw [List.countP_pos_iff]
  simp

end Flips

namespace Latched
variable {flip : ε → Option κ} {on on' : κ → Bool} {events es : List ε}

theorem nil (h : ∀ k, on k = false) : Latched flip on [] := by
  intro k
  simp [flips, h k]

section
variable (h : Latched flip on events)
include h

theorem keep (hes : ∀ e ∈ es, flip e = none) (hon : ∀ k, on' k = on k) :
    Latched flip on' (events ++ es) := by
  intro k
  rw [flips_append, h k, flips_eq_zero flip hes, hon k, Nat.add_zero]

theorem close {k₀ : κ} {e : ε} (he : flip e = some k₀) (hopen : on k₀ = false)
    (hclosed : on' k₀ = true) (hon : ∀ k, k ≠ k₀ → on' k = on k) :
    Latched flip on' (events ++ [e]) := by
  intro k
  rw [flips_append, h k]
  by_cases hk : k = k₀
  · subst hk
    simp [flips, he, hopen, hclosed]
  · have hne : ¬k₀ = k := fun heq => hk heq.symm
    simp [flips, he, hne, hon k hk]

theorem at_most_once (k : κ) : flips flip k events ≤ 1 := by
  rw [h k]
  split
  · exact Nat.le_refl 1
  · exact Nat.zero_le 1

theorem closed_iff (k : κ) : on k = true ↔ ∃ e ∈ events, flip e = some k := by
  rw [← flips_pos, h k]
  split
  · rename_i hon
    exact iff_of_true hon Nat.one_pos
  · rename_i hoff
    exact iff_of_false hoff (Nat.lt_irrefl 0)

end

end Latched

/-! ## Latches that are columns of a table -/

section Table
variable {ρ : Type}

/-- The latch of the row with this id is closed. -/
def tableOn (on : ρ → Bool) (rows : List ρ) (id : Nat) : Bool := (rows[id]?.map on).getD false

variable {on : ρ → Bool} {rows : List ρ} {id : Nat} {r r' : ρ}

theorem tableOn_row (h : rows[id]? = some r) : tableOn on rows id = on r := by
  simp [tableOn, h]

theorem tableOn_snoc (hnew : on r = false) (k : Nat) :
    tableOn on (rows ++ [r]) k = tableOn on rows k := by
  unfold tableOn
  rcases Nat.lt_trichotomy k rows.length with hlt | heq | hgt
  · rw [List.getElem?_append_left hlt]
  · subst heq
    simp [hnew]
  · rw [List.getElem?_eq_none (by simp; omega), List.getElem?_eq_none (by omega)]

theorem tableOn_set_self (h : rows[id]? = some r) : tableOn on (rows.set id r') id = on r' := by
  have hlt := (List.getElem?_eq_some_iff.mp h).1
  exact tableOn_row (List.getElem?_set_self hlt)

theorem tableOn_set_ne {k : Nat} (h : k ≠ id) :
    tableOn on (rows.set id r') k = tableOn on rows k := by
  unfold tableOn
  rw [List.getElem?_set_ne h.symm]

/-- Latches are a matter of the column they are read from. -/
theorem tableOn_of_map {β : Type} {rows' : List ρ} (f : ρ → β) (g : β → Bool)
    (h : rows'.map f = rows.map f) (k : Nat) :
    tableOn (fun r => g (f r)) rows' k = tableOn (fun r => g (f r)) rows k := by
  have hcolumn : ∀ l : List ρ, tableOn (fun r => g (f r)) l k = (((l.map f)[k]?).map g).getD false := by
    intro l
    simp [tableOn, Function.comp_def]
  rw [hcolumn, hcolumn, h]

variable {flip : ε → Option Nat} {events es : List ε}

section
variable (h : Latched flip (tableOn on rows) events)
include h

theorem Latched.insert (hnew : on r = false) :
    Latched flip (tableOn on (rows ++ [r])) (events ++ []) :=
  h.keep (fun e he => by cases he) (tableOn_snoc hnew)

theorem Latched.update (hr : rows[id]? = some r) (hon : on r' = on r)
    (hes : ∀ e ∈ es, flip e = none) :
    Latched flip (tableOn on (rows.set id r')) (events ++ es) := by
  refine h.keep hes fun k => ?_
  by_cases hk : k = id
  · subst hk
    rw [tableOn_set_self hr, tableOn_row hr, hon]
  · exact tableOn_set_ne hk

theorem Latched.win (hr : rows[id]? = some r) (hopen : on r = false) (hclosed : on r' = true)
    {e : ε} (he : flip e = some id) :
    Latched flip (tableOn on (rows.set id r')) (events ++ [e]) := by
  refine h.close he ?_ ?_ fun k hk => tableOn_set_ne hk
  · rw [tableOn_row hr, hopen]
  · rw [tableOn_set_self hr, hclosed]

end

end Table
end Meho.Lib
