import Mathlib.Data.List.Basic

/- Values that are confirmed by repetition.

`streak p xs` counts the items at the end of a list that have a property: an item that has it
makes the streak longer by one, another one ends it. `Confirmed` is a gate over a history:
its value changes to that of an item exactly when the item completes a streak of the needed
length, and it knows which item that was. -/
namespace Meho.Lib

variable {ι σ : Type}

/-- How many items at the end have the property. -/
def streak (p : ι → Bool) (xs : List ι) : Nat := (xs.reverse.takeWhile p).length

@[simp] theorem streak_nil (p : ι → Bool) : streak p [] = 0 := rfl

theorem streak_snoc_of_pos {p : ι → Bool} (xs : List ι) {x : ι} (h : p x = true) :
    streak p (xs ++ [x]) = streak p xs + 1 := by
  rw [streak, List.reverse_append, List.reverse_singleton, List.singleton_append,
    List.takeWhile_cons_of_pos h, List.length_cons, streak]

theorem streak_snoc_of_neg {p : ι → Bool} (xs : List ι) {x : ι} (h : ¬ p x = true) :
    streak p (xs ++ [x]) = 0 := by
  rw [streak, List.reverse_append, List.reverse_singleton, List.singleton_append,
    List.takeWhile_cons_of_neg h, List.length_nil]

/-! ## The gate -/

/-- A value, and the item that confirmed it; none for the one it began with. -/
structure Confirmed (σ ι : Type) where
  value : σ
  by_ : Option ι

section Gate
variable [DecidableEq σ] (valueOf : ι → σ) (need : Nat)

/-- An item after a history. -/
def Confirmed.next (c : Confirmed σ ι) (history : List ι) (x : ι) : Confirmed σ ι :=
  if valueOf x ≠ c.value ∧ streak (valueOf · = valueOf x) (history ++ [x]) = need then
    ⟨valueOf x, some x⟩
  else c

def Confirmed.after (history : List ι) (c : Confirmed σ ι) : List ι → Confirmed σ ι
  | [] => c
  | x :: xs => Confirmed.after (history ++ [x]) (c.next valueOf need history x) xs

/-- What a history confirms. -/
def confirmed (first : σ) (history : List ι) : Confirmed σ ι :=
  Confirmed.after valueOf need [] ⟨first, none⟩ history

theorem Confirmed.after_snoc (history : List ι) (c : Confirmed σ ι) (xs : List ι) (x : ι) :
    Confirmed.after valueOf need history c (xs ++ [x]) =
      (Confirmed.after valueOf need history c xs).next valueOf need (history ++ xs) x := by
  induction xs generalizing history c with
  | nil => simp [Confirmed.after]
  | cons y xs ih => simp [Confirmed.after, ih]

theorem confirmed_snoc (first : σ) (history : List ι) (x : ι) :
    confirmed valueOf need first (history ++ [x]) =
      (confirmed valueOf need first history).next valueOf need history x := by
  rw [confirmed, Confirmed.after_snoc, confirmed, List.nil_append]

end Gate
end Meho.Lib
