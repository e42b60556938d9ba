import Mathlib.Logic.Function.Iterate
import Mathlib.Data.List.Basic

/- A measure of texts for passes that put a marker in place of what they find.

`weight` counts an occurrence of the marker 1 and every other letter its cost, at least 2.
The first letter of the marker is not among the others, so two occurrences do not overlap.
Texts that are joined can only make an occurrence, never break one (`weight_append_le`), and
 where none lies across the seam the weights add up (`weight_append`). A pass that changes a
text only by making it lighter comes to rest (`comes_to_rest`). -/
namespace Meho.Lib.MarkedText

variable {α : Type}

/-- The cost of letters, and the letters of the marker, the first one apart. -/
structure Scale (α : Type) where
  head : α
  tail : List α
  cost : α → Nat
  head_notin : head ∉ tail
  two_le : ∀ c, 2 ≤ cost c

namespace Scale
variable (s : Scale α)

def marker : List α := s.head :: s.tail

theorem marker_length : s.marker.length = s.tail.length + 1 := rfl

/-- No occurrence of the marker lies across the seam of two texts. -/
def Cut (a b : List α) : Prop :=
  ∀ p q, s.marker = p ++ q → p ≠ [] → q ≠ [] → p <:+ a → ¬ q <+: b

variable {a b : List α}

theorem Cut.of_suffix {s : Scale α} {a' : List α} (h : s.Cut a b) (ha : a' <:+ a) : s.Cut a' b :=
  fun p q hm hp hq hsuf => h p q hm hp hq (hsuf.trans ha)

theorem cut_of_last {c : α} (h : c ∉ s.marker) (ha : a.getLast? = some c) : s.Cut a b := by
  rintro p q hm hp - ⟨front, rfl⟩ -
  rw [List.getLast?_append_of_ne_nil _ hp] at ha
  exact h (hm ▸ List.mem_append_left _ (List.mem_of_getLast? ha))

/-- A letter that is at most the last of the marker ends the first text. -/
theorem cut_of_closing {c : α} (h : c ∉ s.marker.dropLast) (ha : a.getLast? = some c) :
    s.Cut a b := by
  rintro p q hm hp hq ⟨front, rfl⟩ -
  rw [List.getLast?_append_of_ne_nil _ hp] at ha
  rw [hm, List.dropLast_append_of_ne_nil hq] at h
  exact h (List.mem_append_left _ (List.mem_of_getLast? ha))

/-- A letter that is at most the first of the marker starts the second text. -/
theorem cut_of_head {c : α} (h : c ∉ s.tail) (hb : b.head? = some c) : s.Cut a b := by
  rintro p q hm hp hq - ⟨behind, rfl⟩
  cases p with
  | nil => exact hp rfl
  | cons d p =>
    have htail : s.tail = p ++ q := (List.cons.inj hm).2
    cases q with
    | nil => exact hq rfl
    | cons e q =>
      have he : e = c := by simpa using hb
      exact h (htail ▸ List.mem_append_right _ (he ▸ List.mem_cons_self))

theorem cut_nil_left (b : List α) : s.Cut [] b := fun _ _ _ hp _ hsuf _ =>
  hp (List.suffix_nil.mp hsuf)

theorem cut_nil_right (a : List α) : s.Cut a [] := fun _ _ _ _ hq _ hpre =>
  hq (List.prefix_nil.mp hpre)

section
variable [DecidableEq α]

def weight (text : List α) : Nat :=
  match text with
  | [] => 0
  | c :: rest =>
    if s.marker <+: c :: rest then 1 + weight (rest.drop s.tail.length)
    else s.cost c + weight rest
termination_by text.length
decreasing_by
  all_goals simp only [List.length_cons, List.length_drop]
  all_goals omega

@[simp] theorem weight_nil : s.weight [] = 0 := by rw [weight]

theorem weight_marker_append (rest : List α) : s.weight (s.marker ++ rest) = 1 + s.weight rest := by
  show s.weight (s.head :: (s.tail ++ rest)) = _
  rw [weight, if_pos ⟨rest, rfl⟩, List.drop_left]

theorem weight_cons {c : α} {rest : List α} (h : ¬ s.marker <+: c :: rest) :
    s.weight (c :: rest) = s.cost c + s.weight rest := by
  rw [weight, if_neg h]

theorem weight_marker : s.weight s.marker = 1 := by
  have h := s.weight_marker_append []
  rwa [List.append_nil, weight_nil] at h

/-- A text either starts with the marker, or with a letter that counts its cost. -/
theorem cases_text (text : List α) :
    text = [] ∨ (∃ rest, text = s.marker ++ rest ∧ s.weight text = 1 + s.weight rest) ∨
      ∃ c rest, text = c :: rest ∧ ¬ s.marker <+: text ∧
        s.weight text = s.cost c + s.weight rest := by
  cases text with
  | nil => exact .inl rfl
  | cons c rest =>
    by_cases h : s.marker <+: c :: rest
    · obtain ⟨behind, hbehind⟩ := h
      refine .inr (.inl ⟨behind, hbehind.symm, ?_⟩)
      rw [← hbehind, weight_marker_append]
    · exact .inr (.inr ⟨c, rest, rfl, h, s.weight_cons h⟩)

variable {text : List α}

theorem one_le_weight (h : text ≠ []) : 1 ≤ s.weight text := by
  obtain rfl | ⟨rest, -, hw⟩ | ⟨c, rest, -, -, hw⟩ := s.cases_text text
  · exact absurd rfl h
  · omega
  · have := s.two_le c
    omega

/-- A text that is more than the marker weighs more than the marker. -/
theorem two_le_weight (h : text ≠ []) (hm : text ≠ s.marker) : 2 ≤ s.weight text := by
  obtain rfl | ⟨rest, rfl, hw⟩ | ⟨c, rest, -, -, hw⟩ := s.cases_text text
  · exact absurd rfl h
  · have hrest : rest ≠ [] := by
      rintro rfl
      exact hm (List.append_nil _)
    have := s.one_le_weight hrest
    omega
  · have := s.two_le c
    omega

theorem cost_le_weight {c : α} {rest : List α} (h : ¬ s.marker <+: c :: rest) :
    s.cost c ≤ s.weight (c :: rest) := by
  rw [s.weight_cons h]
  omega

theorem weight_le_length {k : Nat} (h : ∀ c ∈ text, s.cost c ≤ k) (hm : s.head ∉ text) :
    s.weight text ≤ k * text.length := by
  induction text with
  | nil => simp
  | cons c text ih =>
    have hpre : ¬ s.marker <+: c :: text := fun hpre =>
      hm ((List.cons_prefix_cons.mp hpre).1 ▸ List.mem_cons_self)
    have hc := h c List.mem_cons_self
    have hrest := ih (fun d hd => h d (List.mem_cons_of_mem _ hd))
      fun hmem => hm (List.mem_cons_of_mem _ hmem)
    rw [s.weight_cons hpre, List.length_cons, Nat.mul_succ]
    omega

/-- Letters that do not start a marker only add to a text. -/
theorem weight_le_append {front : List α} (h : s.head ∉ front) (text : List α) :
    s.weight text ≤ s.weight (front ++ text) := by
  induction front with
  | nil => exact Nat.le_refl _
  | cons c front ih =>
    have hc : ¬ s.marker <+: c :: (front ++ text) := by
      intro hpre
      have := (List.cons_prefix_cons.mp hpre).1
      exact h (this ▸ List.mem_cons_self)
    have := ih fun hmem => h (List.mem_cons_of_mem _ hmem)
    rw [List.cons_append, s.weight_cons hc]
    omega

/-- Joining texts makes nothing heavier. -/
theorem weight_append_le (a b : List α) : s.weight (a ++ b) ≤ s.weight a + s.weight b := by
  induction hn : a.length using Nat.strongRecOn generalizing a with
  | _ n ih =>
    subst hn
    obtain rfl | ⟨rest, rfl, hw⟩ | ⟨c, rest, rfl, hpre, hw⟩ := s.cases_text a
    · simp
    · have := ih rest.length (by rw [List.length_append, marker_length]; omega) rest rfl
      rw [List.append_assoc, weight_marker_append, hw]
      omega
    · by_cases hjoin : s.marker <+: c :: rest ++ b
      · -- an occurrence that the join makes: the rest of it is the start of `b`
        obtain ⟨q, hq⟩ : ∃ q, s.marker = c :: rest ++ q := by
          obtain ⟨q, hq⟩ | ⟨q, hq⟩ := List.prefix_or_prefix_of_prefix hjoin
            (List.prefix_append (c :: rest) b)
          · exact absurd ⟨q, hq⟩ hpre
          · exact ⟨q, hq.symm⟩
        obtain ⟨behind, hbehind⟩ := hjoin
        have hb : b = q ++ behind := by
          rw [hq, List.append_assoc] at hbehind
          exact (List.append_cancel_left hbehind).symm
        have hhead : s.head ∉ q := by
          have htail : s.tail = rest ++ q := (List.cons.inj hq).2
          exact fun hmem => s.head_notin (htail ▸ List.mem_append_right _ hmem)
        have h1 := s.weight_le_append hhead behind
        have h2 := s.one_le_weight (List.cons_ne_nil c rest)
        rw [← hbehind, weight_marker_append]
        rw [← hb] at h1
        omega
      · have := ih rest.length (by simp) rest rfl
        rw [List.cons_append] at hjoin ⊢
        rw [s.weight_cons hjoin, hw]
        omega

/-- Where no occurrence lies across the seam, the weights add up. -/
theorem weight_append {a b : List α} (h : s.Cut a b) :
    s.weight (a ++ b) = s.weight a + s.weight b := by
  induction hn : a.length using Nat.strongRecOn generalizing a with
  | _ n ih =>
    subst hn
    obtain rfl | ⟨rest, rfl, hw⟩ | ⟨c, rest, rfl, hpre, hw⟩ := s.cases_text a
    · simp
    · have := ih rest.length (by rw [List.length_append, marker_length]; omega)
        (h.of_suffix (List.suffix_append _ _)) rfl
      rw [List.append_assoc, weight_marker_append, hw]
      omega
    · have hjoin : ¬ s.marker <+: c :: rest ++ b := by
        intro hjoin
        obtain ⟨q, hq⟩ | ⟨q, hq⟩ := List.prefix_or_prefix_of_prefix hjoin
          (List.prefix_append (c :: rest) b)
        · exact hpre ⟨q, hq⟩
        · have hne : q ≠ [] := by
            rintro rfl
            exact hpre ⟨[], by rw [← hq]; simp⟩
          obtain ⟨behind, hbehind⟩ := hjoin
          rw [← hq, List.append_assoc] at hbehind
          exact h _ q hq.symm (List.cons_ne_nil _ _) hne (List.suffix_refl _)
            ⟨behind, List.append_cancel_left hbehind⟩
      have := ih rest.length (by simp) (h.of_suffix (List.suffix_cons c rest)) rfl
      rw [List.cons_append] at hjoin ⊢
      rw [s.weight_cons hjoin, hw]
      omega

end

end Scale

/-- A pass that changes a text only by making it lighter comes to rest. -/
theorem comes_to_rest {β : Type} {pass : β → β} (measure : β → Nat)
    (h : ∀ x, pass x = x ∨ measure (pass x) < measure x) (x : β) :
    ∃ n, pass (pass^[n] x) = pass^[n] x := by
  induction hn : measure x using Nat.strongRecOn generalizing x with
  | _ m ih =>
    subst hn
    cases h x with
    | inl hstays => exact ⟨0, hstays⟩
    | inr hlighter =>
      obtain ⟨n, hrest⟩ := ih _ hlighter (pass x) rfl
      exact ⟨n + 1, hrest⟩

end Meho.Lib.MarkedText
