import Mathlib.Order.Lattice
import Meho.Lib.Rewrite

/- Tables whose rows are due at an instant, and writers that take the instant of a row.

`Agenda.due` is the instant a row is due at, none for a row that is not scheduled. A
writer that takes an instant moves its row on with a conditional write: the row still
has to hold the instant (`cas`). Other statements may move rows too; `Moves` says
 where to.

`Ahead` is the law: every row is beyond all that was taken of it. So what is taken was
not taken before. It is kept by a conditional write that moves the row forward
(`Ahead.cas`), and by every statement that puts rows beyond what was taken
(`Ahead.moves`). -/
namespace Meho.Lib

/-- The key of a row and the instant it is due at. -/
structure Agenda (ρ τ : Type) where
  key : ρ → Nat
  due : ρ → Option τ

namespace Agenda
variable {ρ τ : Type} {A : Agenda ρ τ} {allowed : Nat → τ → Prop} {rows rows' rows'' : List ρ}

/-- The rows after a statement that schedules only the instants that are allowed. -/
def Moves (A : Agenda ρ τ) (allowed : Nat → τ → Prop) (rows rows' : List ρ) : Prop :=
  Rewrites A.key (fun r r' => ∀ t, A.due r' = some t → A.due r = some t ∨ allowed (A.key r') t)
    rows rows'

theorem Moves.of_map {f : ρ → ρ} (hkey : ∀ r, A.key (f r) = A.key r)
    (hdue : ∀ r ∈ rows, ∀ t, A.due (f r) = some t → A.due r = some t ∨ allowed (A.key r) t) :
    A.Moves allowed rows (rows.map f) := by
  refine Rewrites.of_map hkey ?_
  intro r hr t ht
  rw [hkey]
  exact hdue r hr t ht

theorem Moves.refl (A : Agenda ρ τ) (allowed : Nat → τ → Prop) (rows : List ρ) :
    A.Moves allowed rows rows := Rewrites.refl fun _ _ ht => .inl ht

theorem Moves.of_filter (keep : ρ → Bool) : A.Moves allowed rows (rows.filter keep) :=
  Rewrites.of_filter (fun _ _ ht => .inl ht) keep

theorem Moves.trans (h : A.Moves allowed rows rows') (h' : A.Moves allowed rows' rows'') :
    A.Moves allowed rows rows'' := by
  refine Rewrites.trans h h' ?_
  intro r r' r'' _ hkey hdue hdue' t ht
  rcases hdue' t ht with ht | hallowed
  · exact hkey ▸ hdue t ht
  · exact .inr hallowed

/-- A conditional write: `none` if no row matches. -/
def cas (here : ρ → Bool) (f : ρ → ρ) (rows : List ρ) : Option (List ρ) :=
  if rows.any here then some (rows.map fun r => if here r then f r else r) else none

section Ahead
variable [LinearOrder τ] {taken : List (Nat × τ)}

/-- Every row is beyond what was taken of it. -/
def Ahead (A : Agenda ρ τ) (rows : List ρ) (taken : List (Nat × τ)) : Prop :=
  ∀ r ∈ rows, ∀ t, A.due r = some t → ∀ t', (A.key r, t') ∈ taken → t' < t

theorem Ahead.moves (h : A.Ahead rows taken) (hmoves : A.Moves allowed rows rows')
    (hallowed : ∀ k t, allowed k t → ∀ t', (k, t') ∈ taken → t' < t) : A.Ahead rows' taken := by
  intro r' hr' t ht t' ht'
  obtain ⟨r, hr, hkey, hdue⟩ := hmoves.rows r' hr'
  rcases hdue t ht with hdue | hok
  · exact h r hr t hdue t' (hkey ▸ ht')
  · exact hallowed _ t hok t' ht'

variable {here : ρ → Bool} {f : ρ → ρ} {k : Nat} {t : τ}

/-- What a conditional write finds and leaves, when it asks for the instant of one row and moves
the row beyond it. -/
theorem cas_moves (hkeys : (rows.map A.key).Nodup) (hkey : ∀ r, A.key (f r) = A.key r)
    (hhere : ∀ r, here r = true → A.key r = k ∧ A.due r = some t)
    (hf : ∀ r u, A.due (f r) = some u → t < u) (h : cas here f rows = some rows') :
    (∃ r ∈ rows, A.key r = k ∧ A.due r = some t) ∧
      (rows'.map A.key).Sublist (rows.map A.key) ∧
      ∀ r' ∈ rows', ∀ u, A.due r' = some u →
        (A.key r' = k ∧ t < u) ∨
          (A.key r' ≠ k ∧ ∃ r ∈ rows, A.key r = A.key r' ∧ A.due r = some u) := by
  unfold cas at h
  split at h
  · rename_i hany
    cases h
    obtain ⟨found, hfound, hmatch⟩ := List.any_eq_true.mp hany
    have hmoves : A.Moves (fun k' u => k' = k ∧ t < u) rows
        (rows.map fun r => if here r then f r else r) := by
      refine .of_map ?_ ?_
      · intro r
        split
        · exact hkey r
        · rfl
      · intro r _ u hu
        split at hu
        · rename_i hr
          exact .inr ⟨(hhere r hr).1, hf r u hu⟩
        · exact .inl hu
    refine ⟨⟨found, hfound, hhere found hmatch⟩, hmoves.keys, ?_⟩
    intro r' hr' u hu
    obtain ⟨r, hr, rfl⟩ := List.mem_map.mp hr'
    split at hu
    · rename_i hrmatch
      rw [if_pos hrmatch, hkey]
      exact .inl ⟨(hhere r hrmatch).1, hf r u hu⟩
    · rename_i hrmatch
      rw [if_neg hrmatch]
      refine .inr ⟨?_, r, hr, rfl, hu⟩
      -- only one row has the key, and it matched
      intro hrkey
      have heq : r = found :=
        List.inj_on_of_nodup_map hkeys hr hfound (hrkey.trans (hhere found hmatch).1.symm)
      exact hrmatch (heq ▸ hmatch)
  · cases h

/-- **What is taken by a conditional write was not taken before**, and the law is kept. -/
theorem Ahead.cas (h : A.Ahead rows taken) (hkeys : (rows.map A.key).Nodup)
    (hkey : ∀ r, A.key (f r) = A.key r)
    (hhere : ∀ r, here r = true → A.key r = k ∧ A.due r = some t)
    (hf : ∀ r u, A.due (f r) = some u → t < u) (hcas : Agenda.cas here f rows = some rows') :
    (k, t) ∉ taken ∧ A.Ahead rows' (taken ++ [(k, t)]) := by
  obtain ⟨⟨found, hfound, hfkey, hfdue⟩, -, hdue⟩ := cas_moves hkeys hkey hhere hf hcas
  have hbehind : ∀ t', (k, t') ∈ taken → t' < t := by
    intro t' ht'
    exact h found hfound t hfdue t' (hfkey ▸ ht')
  refine ⟨fun hmem => lt_irrefl t (hbehind t hmem), ?_⟩
  intro r' hr' u hu t' ht'
  rcases hdue r' hr' u hu with ⟨hk, hlt⟩ | ⟨hk, r, hr, hrkey, hru⟩
  · rcases List.mem_append.mp ht' with ht' | ht'
    · exact lt_trans (hbehind t' (hk ▸ ht')) hlt
    · have heq := List.mem_singleton.mp ht'
      rw [(Prod.mk.inj heq).2]
      exact hlt
  · rcases List.mem_append.mp ht' with ht' | ht'
    · exact h r hr u hru t' (hrkey ▸ ht')
    · have heq := List.mem_singleton.mp ht'
      exact absurd (Prod.mk.inj heq).1 hk

end Ahead
end Agenda
end Meho.Lib
