import Mathlib.Data.List.Basic

/- Histories of a system whose every action is one atomic step.

A `Machine` has a start state and a step function. A step answers the next
state and the events it let an observer see. `Machine.run` plays a list of
actions and keeps both: the state it ends in and every event so far, in
order. A list of actions is one interleaving, so a statement about every
list is a statement about every interleaving.

The rules below are what the proofs about such a system need: an invariant
of configurations that every step keeps holds after every run
(`run_induct`), from the start on (`reach_induct`), and for the runs whose every
step meets a condition (`along_induct`). `count_le_budget` is for how often a step of a
kind can be taken. `Preceded` is for the order of events:
each one comes after what it needs. `Since` is for what a party of the system
can count on later: some action of the run met a condition, and the condition
sees the run up to it. `Machine.pair` is two systems in one interleaving, and a run
of both is a run of each (`pair_run`). -/
namespace Meho.Lib

/-- A system of atomic steps. `step` answers the next state and what was observable. -/
structure Machine (σ α ε : Type) where
  start : σ
  step : σ → α → σ × List ε

/-- Where a run stands: the state, and everything observable up to it. -/
structure Config (σ ε : Type) where
  state : σ
  events : List ε

namespace Machine
variable {σ α ε : Type} (M : Machine σ α ε)

/-- The configuration before the first action. -/
def begin_ : Config σ ε := ⟨M.start, []⟩

/-- One action. -/
def next (c : Config σ ε) (a : α) : Config σ ε :=
  ⟨(M.step c.state a).1, c.events ++ (M.step c.state a).2⟩

/-- A list of actions, the first one first. -/
def run (c : Config σ ε) (acts : List α) : Config σ ε := acts.foldl M.next c

/-- Some interleaving leads from the start to `c`. -/
def Reachable (c : Config σ ε) : Prop := ∃ acts, c = M.run M.begin_ acts

theorem run_append (c : Config σ ε) (xs ys : List α) :
    M.run c (xs ++ ys) = M.run (M.run c xs) ys := List.foldl_append

@[simp] theorem next_state (c : Config σ ε) (a : α) :
    (M.next c a).state = (M.step c.state a).1 := rfl

@[simp] theorem next_events (c : Config σ ε) (a : α) :
    (M.next c a).events = c.events ++ (M.step c.state a).2 := rfl

variable {c : Config σ ε}

theorem run_induct {P : Config σ ε → Prop} (hstep : ∀ c a, P c → P (M.next c a)) (h : P c)
    (acts : List α) : P (M.run c acts) := by
  induction acts generalizing c with
  | nil => exact h
  | cons a acts ih => exact ih (hstep c a h)

theorem run_events (c : Config σ ε) (acts : List α) :
    ∃ es, (M.run c acts).events = c.events ++ es := by
  refine M.run_induct (P := fun d => ∃ es, d.events = c.events ++ es) ?_ ⟨[], by simp⟩ acts
  rintro d a ⟨es, hes⟩
  exact ⟨es ++ (M.step d.state a).2, by simp [hes]⟩

theorem reach_induct {P : Config σ ε → Prop} (h0 : P M.begin_) (hstep : ∀ c a, P c → P (M.next c a))
    (h : M.Reachable c) : P c := by
  obtain ⟨acts, rfl⟩ := h
  exact M.run_induct hstep h0 acts

/-- Every step of the run from `c` is taken under `P`. -/
def Along (P : Config σ ε → α → Prop) : Config σ ε → List α → Prop
  | _, [] => True
  | c, a :: acts => P c a ∧ Along P (M.next c a) acts

instance Along.decidable (P : Config σ ε → α → Prop) [∀ c a, Decidable (P c a)] :
    ∀ c acts, Decidable (M.Along P c acts)
  | _, [] => isTrue trivial
  | c, a :: acts =>
    have := Along.decidable P (M.next c a) acts
    inferInstanceAs (Decidable (P c a ∧ M.Along P (M.next c a) acts))

theorem along_append (P : Config σ ε → α → Prop) (c : Config σ ε) (xs ys : List α) :
    M.Along P c (xs ++ ys) ↔ M.Along P c xs ∧ M.Along P (M.run c xs) ys := by
  induction xs generalizing c with
  | nil => exact ⟨fun h => ⟨trivial, h⟩, And.right⟩
  | cons x xs ih =>
    have hrest := ih (M.next c x)
    constructor
    · rintro ⟨hx, h⟩
      obtain ⟨hxs, hys⟩ := hrest.mp h
      exact ⟨⟨hx, hxs⟩, hys⟩
    · rintro ⟨⟨hx, hxs⟩, hys⟩
      exact ⟨hx, hrest.mpr ⟨hxs, hys⟩⟩

variable {I : Config σ ε → Prop}

/-- What every step under `P` keeps, every run under `P` keeps. -/
theorem along_induct {P : Config σ ε → α → Prop} (hstep : ∀ c a, I c → P c a → I (M.next c a))
    (h : I c) {acts : List α} (hP : M.Along P c acts) : I (M.run c acts) := by
  induction acts generalizing c with
  | nil => exact h
  | cons a acts ih =>
    obtain ⟨ha, hrest⟩ := hP
    exact ih (hstep c a h ha) hrest

theorem run_induct_of_forall {P : α → Prop} (hstep : ∀ c a, I c → P a → I (M.next c a)) (h : I c)
    {acts : List α} (hP : ∀ a ∈ acts, P a) : I (M.run c acts) := by
  induction acts generalizing c with
  | nil => exact h
  | cons a acts ih =>
    have ha := hstep c a h (hP a List.mem_cons_self)
    exact ih ha fun b hb => hP b (List.mem_cons_of_mem a hb)

/-- Every step from a state under an invariant meets what the invariant gives. -/
theorem along_of_invariant {P : Config σ ε → α → Prop} (hstep : ∀ c a, I c → I (M.next c a))
    (hP : ∀ c a, I c → P c a) (h : I c) (acts : List α) : M.Along P c acts := by
  induction acts generalizing c with
  | nil => trivial
  | cons a acts ih => exact ⟨hP c a h, ih (hstep c a h)⟩

/-- How many steps of the run from `c` meet a condition. -/
def count (P : Config σ ε → α → Bool) : Config σ ε → List α → Nat
  | _, [] => 0
  | c, a :: acts => (P c a).toNat + count P (M.next c a) acts

/-- Steps that use up a budget: there are no more of them than the budget allows. -/
theorem count_le_budget {P : Config σ ε → α → Bool} {B : Config σ ε → Nat}
    (hkeep : ∀ c a, I c → I (M.next c a)) (hpay : ∀ c a, I c → (P c a).toNat + B (M.next c a) ≤ B c)
    (h : I c) (acts : List α) : M.count P c acts ≤ B c := by
  induction acts generalizing c with
  | nil => exact Nat.zero_le _
  | cons a acts ih =>
    have hrest := ih (hkeep c a h)
    have hfirst := hpay c a h
    show (P c a).toNat + M.count P (M.next c a) acts ≤ B c
    omega

/-- Where the actions lead from the start. -/
def after (acts : List α) : Config σ ε := M.run M.begin_ acts

theorem after_snoc (acts : List α) (a : α) :
    M.after (acts ++ [a]) = M.next (M.after acts) a := M.run_append M.begin_ acts [a]

end Machine

/-! ## Two systems side by side -/

section Pair
variable {σ α ε τ β φ : Type} (M : Machine σ α ε) (N : Machine τ β φ)

/-- Two systems that share nothing, in one interleaving. -/
def Machine.pair : Machine (σ × τ) (α ⊕ β) (ε ⊕ φ) where
  start := (M.start, N.start)
  step s a :=
    match a with
    | .inl a => (((M.step s.1 a).1, s.2), (M.step s.1 a).2.map .inl)
    | .inr b => ((s.1, (N.step s.2 b).1), (N.step s.2 b).2.map .inr)

/-- What one of the two has to do with a configuration of both. -/
def Config.left (c : Config (σ × τ) (ε ⊕ φ)) : Config σ ε :=
  ⟨c.state.1, c.events.filterMap Sum.getLeft?⟩

def Config.right (c : Config (σ × τ) (ε ⊕ φ)) : Config τ φ :=
  ⟨c.state.2, c.events.filterMap Sum.getRight?⟩

theorem lefts_map_inl (es : List ε) :
    (es.map (Sum.inl (β := φ))).filterMap Sum.getLeft? = es := by
  rw [List.filterMap_map]
  exact List.filterMap_some

theorem lefts_map_inr (es : List φ) :
    (es.map (Sum.inr (α := ε))).filterMap Sum.getLeft? = [] := by
  rw [List.filterMap_map]
  exact List.filterMap_eq_nil_iff.mpr fun _ _ => rfl

theorem rights_map_inr (es : List φ) :
    (es.map (Sum.inr (α := ε))).filterMap Sum.getRight? = es := by
  rw [List.filterMap_map]
  exact List.filterMap_some

theorem rights_map_inl (es : List ε) :
    (es.map (Sum.inl (β := φ))).filterMap Sum.getRight? = [] := by
  rw [List.filterMap_map]
  exact List.filterMap_eq_nil_iff.mpr fun _ _ => rfl

section
variable (c : Config (σ × τ) (ε ⊕ φ))
include c

theorem Machine.pair_next_inl (a : α) :
    ((M.pair N).next c (.inl a)).left = M.next c.left a ∧
      ((M.pair N).next c (.inl a)).right = c.right := by
  constructor
  · simp only [Config.left, Machine.next, Machine.pair, List.filterMap_append, lefts_map_inl]
  · simp only [Config.right, Machine.next, Machine.pair, List.filterMap_append, rights_map_inl,
      List.append_nil]

theorem Machine.pair_next_inr (b : β) :
    ((M.pair N).next c (.inr b)).left = c.left ∧
      ((M.pair N).next c (.inr b)).right = N.next c.right b := by
  constructor
  · simp only [Config.left, Machine.next, Machine.pair, List.filterMap_append, lefts_map_inr,
      List.append_nil]
  · simp only [Config.right, Machine.next, Machine.pair, List.filterMap_append, rights_map_inr]

theorem Machine.pair_run (acts : List (α ⊕ β)) :
    ((M.pair N).run c acts).left = M.run c.left (acts.filterMap Sum.getLeft?) ∧
      ((M.pair N).run c acts).right = N.run c.right (acts.filterMap Sum.getRight?) := by
  induction acts generalizing c with
  | nil => exact ⟨rfl, rfl⟩
  | cons a acts ih =>
    obtain ⟨hleft, hright⟩ := ih ((M.pair N).next c a)
    cases a with
    | inl a =>
      obtain ⟨hl, hr⟩ := M.pair_next_inl N c a
      rw [hl] at hleft
      rw [hr] at hright
      exact ⟨hleft, hright⟩
    | inr b =>
      obtain ⟨hl, hr⟩ := M.pair_next_inr N c b
      rw [hl] at hleft
      rw [hr] at hright
      exact ⟨hleft, hright⟩

end

/-- A condition on the steps of the first. -/
theorem Machine.pair_along {P : Config σ ε → α → Prop} {c : Config (σ × τ) (ε ⊕ φ)}
    {acts : List (α ⊕ β)}
    (h : (M.pair N).Along (fun c a => ∀ x, a = .inl x → P c.left x) c acts) :
    M.Along P c.left (acts.filterMap Sum.getLeft?) := by
  induction acts generalizing c with
  | nil => trivial
  | cons a acts ih =>
    obtain ⟨ha, hrest⟩ := h
    have htail := ih hrest
    cases a with
    | inl a =>
      rw [(M.pair_next_inl N c a).1] at htail
      exact ⟨ha a rfl, htail⟩
    | inr b =>
      rw [(M.pair_next_inr N c b).1] at htail
      exact htail

end Pair

/-! ## What happened before -/

section Past
variable {α : Type} {P : List α → α → Prop} {acts : List α}

/-- Some action met `P`, which sees the actions before it. -/
def Since (P : List α → α → Prop) (acts : List α) : Prop :=
  ∃ before a later, acts = before ++ a :: later ∧ P before a

theorem Since.last {a : α} (h : P acts a) : Since P (acts ++ [a]) := ⟨acts, a, [], rfl, h⟩

theorem Since.snoc (h : Since P acts) (b : α) : Since P (acts ++ [b]) := by
  obtain ⟨before, a, later, rfl, hP⟩ := h
  exact ⟨before, a, later ++ [b], by simp, hP⟩

end Past

/-! ## The order of events -/

section Order
variable {ε : Type} {need : List ε → ε → Prop} {events : List ε}

/-- Each event comes after what it needs of the events before it. -/
def Preceded (need : List ε → ε → Prop) (events : List ε) : Prop :=
  ∀ before e after, events = before ++ e :: after → need before e

theorem Preceded.nil (need : List ε → ε → Prop) : Preceded need [] := by
  intro before e after h
  simp at h

/-- One more event, which has what it needs. -/
theorem Preceded.snoc (h : Preceded need events) {e : ε} (hneed : need events e) :
    Preceded need (events ++ [e]) := by
  intro before e' after heq
  rcases List.eq_nil_or_concat after with rfl | ⟨rest, last, rfl⟩
  · obtain ⟨hbefore, hlast⟩ := List.append_inj' heq rfl
    obtain rfl := (List.cons.inj hlast).1
    rw [← hbefore]
    exact hneed
  · have hsplit : events ++ [e] = (before ++ e' :: rest) ++ [last] := by
      simpa using heq
    exact h before e' rest (List.append_inj' hsplit rfl).1

end Order
end Meho.Lib
