import Mathlib.Data.List.Nodup
import Mathlib.Logic.Function.Basic

/- Items that are taken once, kept by the party that took them, and used.

A party takes an item that nobody has taken before, keeps it in its queue, and later
uses it or drops it. `Handoff` holds what was taken and used so far and what each
party keeps; `Sound` is the law: nothing is taken twice, an item is kept by one party
at most, and what is kept has not been used. So nothing is used twice. A system keeps
it when each of its steps is a `take`, a `use`, a `shrink` of one queue, or none of
these. -/
namespace Meho.Lib

/-- Items taken by parties and used by them later. -/
structure Handoff (κ : Type) where
  taken : List κ
  used : List κ
  /-- What a party has taken and not used yet. -/
  queue : Nat → List κ

namespace Handoff
variable {κ : Type} {h : Handoff κ} {p : Nat} {x : κ} {rest : List κ}

/-- Nothing is taken or used twice. -/
structure Sound (h : Handoff κ) : Prop where
  taken_once : h.taken.Nodup
  used_once : h.used.Nodup
  used_taken : ∀ x ∈ h.used, x ∈ h.taken
  queue_once : ∀ p, (h.queue p).Nodup
  queue_taken : ∀ p, ∀ x ∈ h.queue p, x ∈ h.taken
  queue_unused : ∀ p, ∀ x ∈ h.queue p, x ∉ h.used
  queue_apart : ∀ p q x, x ∈ h.queue p → x ∈ h.queue q → p = q

/-- A party has taken an item. -/
def take (h : Handoff κ) (p : Nat) (x : κ) : Handoff κ :=
  ⟨h.taken ++ [x], h.used, Function.update h.queue p (h.queue p ++ [x])⟩

/-- A party has used an item and keeps the others. -/
def use (h : Handoff κ) (p : Nat) (x : κ) (rest : List κ) : Handoff κ :=
  ⟨h.taken, h.used ++ [x], Function.update h.queue p rest⟩

/-- A party keeps only some of its items. -/
def shrink (h : Handoff κ) (p : Nat) (rest : List κ) : Handoff κ :=
  ⟨h.taken, h.used, Function.update h.queue p rest⟩

theorem sound_empty : Sound (⟨[], [], fun _ => []⟩ : Handoff κ) where
  taken_once := List.nodup_nil
  used_once := List.nodup_nil
  used_taken := nofun
  queue_once := fun _ => List.nodup_nil
  queue_taken := nofun
  queue_unused := nofun
  queue_apart := nofun

theorem mem_update {queue : Nat → List κ} {q : Nat} {l : List κ}
    (hx : x ∈ Function.update queue p l q) : (q = p ∧ x ∈ l) ∨ (q ≠ p ∧ x ∈ queue q) := by
  by_cases hq : q = p
  · subst hq
    rw [Function.update_self] at hx
    exact .inl ⟨rfl, hx⟩
  · rw [Function.update_of_ne hq] at hx
    exact .inr ⟨hq, hx⟩

theorem Sound.shrink (s : Sound h) (hrest : rest.Sublist (h.queue p)) : Sound (h.shrink p rest) := by
  have hold : ∀ q x, x ∈ Function.update h.queue p rest q → x ∈ h.queue q := by
    intro q x hx
    rcases mem_update hx with ⟨rfl, hkept⟩ | ⟨-, hkept⟩
    · exact hrest.subset hkept
    · exact hkept
  refine ⟨s.taken_once, s.used_once, s.used_taken, ?_, ?_, ?_, ?_⟩
  · intro q
    by_cases hq : q = p
    · subst hq
      simp only [Handoff.shrink, Function.update_self]
      exact hrest.nodup (s.queue_once q)
    · simp only [Handoff.shrink, Function.update_of_ne hq]
      exact s.queue_once q
  · exact fun q x hx => s.queue_taken q x (hold q x hx)
  · exact fun q x hx => s.queue_unused q x (hold q x hx)
  · exact fun q r x hq hr => s.queue_apart q r x (hold q x hq) (hold r x hr)

theorem Sound.take (s : Sound h) (hnew : x ∉ h.taken) : Sound (h.take p x) := by
  -- only the queue of `p` grows, and only by `x`
  have hold : ∀ q y, y ∈ Function.update h.queue p (h.queue p ++ [x]) q →
      y ∈ h.queue q ∨ (q = p ∧ y = x) := by
    intro q y hy
    rcases mem_update hy with ⟨rfl, hy⟩ | ⟨-, hy⟩
    · rcases List.mem_append.mp hy with hy | hy
      · exact .inl hy
      · exact .inr ⟨rfl, List.mem_singleton.mp hy⟩
    · exact .inl hy
  have hunused : x ∉ h.used := fun hx => hnew (s.used_taken x hx)
  have hunkept : ∀ q, x ∉ h.queue q := fun q hx => hnew (s.queue_taken q x hx)
  refine ⟨?_, s.used_once, ?_, ?_, ?_, ?_, ?_⟩
  · exact List.nodup_append.mpr ⟨s.taken_once, List.nodup_singleton x, by
      intro y hy z hz heq
      rw [List.mem_singleton.mp hz] at heq
      exact hnew (heq ▸ hy)⟩
  · exact fun y hy => List.mem_append_left _ (s.used_taken y hy)
  · intro q
    by_cases hq : q = p
    · subst hq
      simp only [Handoff.take, Function.update_self]
      exact List.nodup_append.mpr ⟨s.queue_once q, List.nodup_singleton x, by
        intro y hy z hz heq
        rw [List.mem_singleton.mp hz] at heq
        exact hunkept q (heq ▸ hy)⟩
    · simp only [Handoff.take, Function.update_of_ne hq]
      exact s.queue_once q
  · intro q y hy
    rcases hold q y hy with hy | ⟨-, rfl⟩
    · exact List.mem_append_left _ (s.queue_taken q y hy)
    · exact List.mem_append_right _ (List.mem_singleton_self y)
  · intro q y hy
    rcases hold q y hy with hy | ⟨-, rfl⟩
    · exact s.queue_unused q y hy
    · exact hunused
  · intro q r y hq hr
    rcases hold q y hq with hkept | ⟨rfl, rfl⟩
    · rcases hold r y hr with hkept' | ⟨-, rfl⟩
      · exact s.queue_apart q r y hkept hkept'
      · exact absurd hkept (hunkept q)
    · rcases hold r y hr with hkept' | ⟨hr', -⟩
      · exact absurd hkept' (hunkept r)
      · exact hr'.symm

theorem Sound.use (s : Sound h) (hqueue : h.queue p = x :: rest) : Sound (h.use p x rest) := by
  have hrest : rest.Sublist (h.queue p) := hqueue ▸ List.sublist_cons_self x rest
  have hmem : x ∈ h.queue p := hqueue ▸ List.mem_cons_self
  have hnodup := s.queue_once p
  rw [hqueue] at hnodup
  have hshrunk := s.shrink hrest
  refine ⟨s.taken_once, ?_, ?_, hshrunk.queue_once, hshrunk.queue_taken, ?_, hshrunk.queue_apart⟩
  · exact List.nodup_append.mpr ⟨s.used_once, List.nodup_singleton x, by
      intro y hy z hz heq
      rw [List.mem_singleton.mp hz] at heq
      exact s.queue_unused p x hmem (heq ▸ hy)⟩
  · intro y hy
    rcases List.mem_append.mp hy with hy | hy
    · exact s.used_taken y hy
    · rw [List.mem_singleton.mp hy]
      exact s.queue_taken p x hmem
  · intro q y hy hused
    rcases List.mem_append.mp hused with hused | hused
    · exact hshrunk.queue_unused q y hy hused
    · obtain rfl := List.mem_singleton.mp hused
      rcases mem_update hy with ⟨-, hkept⟩ | ⟨hq, hkept⟩
      · exact (List.nodup_cons.mp hnodup).1 hkept
      · exact hq (s.queue_apart q p y hkept hmem)

end Handoff
end Meho.Lib
