import Mathlib.Data.List.Duplicate

/- The ticket for one piece of work that is done once, and again only after it
failed.

A ticket is unused until one party claims it. The holder may start the work;
once it runs, it has to stop before the holder can hand in a result. A failed
result can be claimed once more, under the next attempt number. An unused
ticket may also be spent elsewhere. A holder that disappears leaves the ticket
held for good: there is no way back from `held` but a result.

`Ticket.Run tr t` is a history of these steps with the marks `tr` it left. The
laws of every history are `Run.precedes`, that attempts of successive starts
grow, nothing starts after a success, and a ticket that was spent is used for
nothing else, and `Run.stopped`, that whatever started before a start has
stopped before it. A system refines this machine when each of its steps, seen
from one ticket, is a `Ticket.Step`. -/
namespace Meho.Lib

/-- How far the holder of a ticket is. -/
inductive Stage where
  | claimed
  | going
  | stopped
  deriving DecidableEq, Repr

/-- A ticket that can be spent once. -/
inductive Ticket where
  | unused
  | held (attempt : Nat) (stage : Stage)
  | ended (attempt : Nat) (ok : Bool)
  | spent
  deriving DecidableEq, Repr

/-- What an observer sees of a ticket. -/
inductive Mark where
  | start (attempt : Nat)
  | stop (attempt : Nat)
  | result (ok : Bool)
  | spend
  deriving DecidableEq, Repr

namespace Ticket

/-- One step, with the mark it leaves. -/
inductive Step : Ticket → List Mark → Ticket → Prop where
  | idle (t : Ticket) : Step t [] t
  | claim : Step .unused [] (.held 0 .claimed)
  | start (n : Nat) : Step (.held n .claimed) [.start n] (.held n .going)
  | stop (n : Nat) : Step (.held n .going) [.stop n] (.held n .stopped)
  | finish (n : Nat) {stage : Stage} (h : stage ≠ .going) (ok : Bool) :
    Step (.held n stage) [.result ok] (.ended n ok)
  | retry (n : Nat) : Step (.ended n false) [] (.held (n + 1) .claimed)
  | spend : Step .unused [.spend] .spent

/-- A history from the unused ticket. -/
inductive Run : List Mark → Ticket → Prop where
  | nil : Run [] .unused
  | snoc {tr ms : List Mark} {t t' : Ticket} (h : Run tr t) (hs : Step t ms t') : Run (tr ++ ms) t'

/-- What may stand before what in a history. -/
def Precedes : Mark → Mark → Prop
  | .start m, .start n => m < n
  | .result ok, .start _ => ok = false
  | .spend, _ => False
  | _, .spend => False
  | _, _ => True

/-- What the marks of a history may be, given where the ticket stands. -/
def Allows : Ticket → Mark → Prop
  | .unused, _ => False
  | .held n stage, .start m => m < n ∨ (m = n ∧ stage ≠ .claimed)
  | .held _ _, .result ok => ok = false
  | .ended n _, .start m => m ≤ n
  | .ended _ ok, .result ok' => ok' = true → ok = true
  | .spent, m => m = .spend
  | _, .stop _ => True
  | _, .spend => False

variable {t t' : Ticket} {ms : List Mark}

theorem Step.allows (h : Step t ms t') {m : Mark} (hm : t.Allows m ∨ m ∈ ms) : t'.Allows m := by
  cases h with
  | idle => simpa using hm
  | claim => simp [Allows] at hm
  | start n =>
    rcases hm with hm | hm
    · -- a claimed ticket has started only earlier attempts
      cases m with
      | start k =>
        simp only [Allows, ne_eq, not_true_eq_false, and_false, or_false] at hm
        exact .inl hm
      | stop k => trivial
      | result ok => exact hm
      | spend => exact hm
    · rw [List.mem_singleton.mp hm]
      exact .inr ⟨rfl, by simp⟩
  | stop n =>
    rcases hm with hm | hm
    · cases m with
      | start k =>
        simp only [Allows] at hm ⊢
        exact hm.imp_right fun h => ⟨h.1, by simp⟩
      | stop k => trivial
      | result ok => exact hm
      | spend => exact hm
    · rw [List.mem_singleton.mp hm]
      trivial
  | finish n hgo ok =>
    rcases hm with hm | hm
    · cases m with
      | start k =>
        simp only [Allows] at hm ⊢
        omega
      | stop k => trivial
      | result ok' =>
        simp only [Allows] at hm ⊢
        simp [hm]
      | spend => exact hm
    · rw [List.mem_singleton.mp hm]
      exact fun h => h
  | retry n =>
    -- only a failed result is claimed again, so no success is among the marks
    have hm := hm.resolve_right (by simp)
    cases m with
    | start k =>
      simp only [Allows] at hm ⊢
      omega
    | stop k => trivial
    | result ok =>
      cases ok with
      | false => rfl
      | true => exact absurd (hm rfl) (by simp)
    | spend => exact hm
  | spend =>
    rcases hm with hm | hm
    · exact hm.elim
    · rw [List.mem_singleton.mp hm]
      rfl

variable {tr : List Mark}

theorem Run.allows (h : Run tr t) : ∀ m ∈ tr, t.Allows m := by
  induction h with
  | nil => intro m hm; cases hm
  | snoc h hs ih =>
    intro m hm
    rcases List.mem_append.mp hm with hold | hnew
    · exact hs.allows (.inl (ih m hold))
    · exact hs.allows (.inr hnew)

/-- A mark a step leaves may follow every mark the ticket allows. -/
theorem Step.precedes (h : Step t ms t') {a b : Mark} (ha : t.Allows a) (hb : b ∈ ms) :
    Precedes a b := by
  cases h with
  | idle => cases hb
  | claim => cases hb
  | start n =>
    rw [List.mem_singleton.mp hb]
    cases a with
    | start k =>
      simp only [Allows, ne_eq, not_true_eq_false, and_false, or_false] at ha
      exact ha
    | stop k => trivial
    | result ok => exact ha
    | spend => exact ha.elim
  | stop n | finish n hgo ok =>
    rw [List.mem_singleton.mp hb]
    cases a with
    | spend => exact ha.elim
    | _ => trivial
  | retry n => cases hb
  | spend => exact ha.elim

theorem Step.marks_cases (h : Step t ms t') : ms = [] ∨ ∃ m, ms = [m] := by
  cases h <;> simp

theorem Run.precedes (h : Run tr t) : tr.Pairwise Precedes := by
  induction h with
  | nil => exact List.Pairwise.nil
  | @snoc tr ms t t' h hs ih =>
    rw [List.pairwise_append]
    refine ⟨ih, ?_, ?_⟩
    · rcases hs.marks_cases with rfl | ⟨m, rfl⟩
      · exact List.Pairwise.nil
      · exact List.pairwise_singleton _ _
    · intro a ha b hb
      exact hs.precedes (h.allows a ha) hb

theorem Run.start_once (h : Run tr t) (n : Nat) : tr.count (.start n) ≤ 1 := by
  by_contra hmany
  have htwo : List.Duplicate (Mark.start n) tr := by
    rw [List.duplicate_iff_two_le_count]
    omega
  have hpair := h.precedes.sublist (List.duplicate_iff_sublist.mp htwo)
  have hlt : n < n := List.rel_of_pairwise_cons hpair List.mem_cons_self
  omega

theorem Run.started (h : Run tr t) {m : Nat} (hm : .start m ∈ tr) :
    .stop m ∈ tr ∨ t = .held m .going := by
  induction h with
  | nil => cases hm
  | @snoc tr ms t t' h hs ih =>
    rcases List.mem_append.mp hm with hold | hnew
    · rcases ih hold with hstop | rfl
      · exact .inl (List.mem_append_left _ hstop)
      · cases hs with
        | idle => exact .inr rfl
        | stop => exact .inl (List.mem_append_right _ List.mem_cons_self)
        | finish _ hgo _ => exact absurd rfl hgo
    · cases hs with
      | start n =>
        cases List.mem_singleton.mp hnew
        exact .inr rfl
      | _ => simp at hnew

/-- Nothing starts while something started before is still going. -/
theorem Run.stopped (h : Run tr t) {pre : List Mark} {n m : Nat} (hpre : pre ++ [.start n] <+: tr)
    (hm : .start m ∈ pre) : .stop m ∈ pre := by
  induction h with
  | nil => simp at hpre
  | @snoc tr ms t t' h hs ih =>
    rcases hs.marks_cases with rfl | ⟨k, rfl⟩
    · rw [List.append_nil] at hpre
      exact ih hpre
    · rcases List.prefix_concat_iff.mp hpre with heq | hshort
      · -- the start is the last mark, so the ticket was claimed and not going
        obtain ⟨rfl, hk⟩ := List.append_inj' heq rfl
        cases hk
        cases hs with
        | start =>
          rcases h.started hm with hstop | hgoing
          · exact hstop
          · cases hgoing
      · exact ih hshort

end Ticket
end Meho.Lib
