import Mathlib.Data.List.Perm.Basic

/- Items that tasks carry from where they are issued to where they are delivered.

Each task carries a list of items. It is given items when they are issued and hands
over all it carries when it delivers. `Conserved` is the law of such a system: what
was issued is, up to order, what was delivered and what is carried. So nothing is lost
and nothing is delivered twice, whatever the order in which tasks run. -/
namespace Meho.Lib

/-- What was issued was delivered, or a task carries it; each item once. -/
def Conserved {κ : Type} (issued delivered : List κ) (carried : List (List κ)) : Prop :=
  issued.Perm (delivered ++ carried.flatten)

namespace Conserved
variable {κ : Type} {issued delivered : List κ} {carried : List (List κ)} {i : Nat} {xs : List κ}

/-- What one task carries beside the others. -/
theorem flatten_set {ys : List κ} (hi : carried[i]? = some xs) :
    (ys ++ carried.flatten).Perm (xs ++ (carried.set i ys).flatten) := by
  induction carried generalizing i with
  | nil => cases hi
  | cons zs carried ih =>
    cases i with
    | zero =>
      cases hi
      rw [List.set_cons_zero, List.flatten_cons, List.flatten_cons]
      exact List.perm_append_comm_assoc ys xs carried.flatten
    | succ i =>
      have hrest := ih (i := i) (by simpa using hi)
      rw [List.set_cons_succ, List.flatten_cons, List.flatten_cons]
      calc (ys ++ (zs ++ carried.flatten)).Perm (zs ++ (ys ++ carried.flatten)) :=
            List.perm_append_comm_assoc ys zs _
        List.Perm _ (zs ++ (xs ++ (carried.set i ys).flatten)) := hrest.append_left zs
        List.Perm _ (xs ++ (zs ++ (carried.set i ys).flatten)) :=
            List.perm_append_comm_assoc zs xs _

theorem empty : Conserved ([] : List κ) [] [] := List.Perm.refl _

section
variable (h : Conserved issued delivered carried)
include h

theorem begin_ : Conserved issued delivered (carried ++ [[]]) := by
  unfold Conserved
  rw [List.flatten_append, List.flatten_singleton, List.append_nil]
  exact h

theorem issue (hi : carried[i]? = some []) (ys : List κ) :
    Conserved (issued ++ ys) delivered (carried.set i ys) := by
  have hset : (ys ++ carried.flatten).Perm ([] ++ (carried.set i ys).flatten) := flatten_set hi
  unfold Conserved at h ⊢
  calc (issued ++ ys).Perm ((delivered ++ carried.flatten) ++ ys) := h.append_right ys
    List.Perm _ (delivered ++ (carried.flatten ++ ys)) := by rw [List.append_assoc]
    List.Perm _ (delivered ++ (ys ++ carried.flatten)) := List.perm_append_comm.append_left delivered
    List.Perm _ (delivered ++ (carried.set i ys).flatten) := hset.append_left delivered

theorem deliver (hi : carried[i]? = some xs) :
    Conserved issued (delivered ++ xs) (carried.set i []) := by
  have hset : ([] ++ carried.flatten).Perm (xs ++ (carried.set i []).flatten) := flatten_set hi
  unfold Conserved at h ⊢
  calc issued.Perm (delivered ++ carried.flatten) := h
    List.Perm _ (delivered ++ (xs ++ (carried.set i []).flatten)) := hset.append_left delivered
    List.Perm _ ((delivered ++ xs) ++ (carried.set i []).flatten) := by rw [List.append_assoc]

end

end Conserved
end Meho.Lib
