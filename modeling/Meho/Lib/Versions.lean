import Meho.Lib.Index

/- Rows under open transactions.

A table is a list of slots. A slot holds a row that is committed, and maybe the
version an open transaction has written over it; or a row that an open
transaction has inserted; or nothing, once an insert is rolled back. A
transaction reads its own versions and the committed rows (read committed), a
write waits for the transaction that holds the row, and an insert waits for an
 open transaction that may hold its key.

Which open transactions will commit is not known, so an index is kept when it is
unique whichever of them do (`Safe`). The committed rows are the case in which
none does, and what a transaction sees is the case in which it alone does. The
rules: a write that gives up keys keeps it (`Safe.update`), and so do the end of
a transaction, either way (`Safe.commit`, `Safe.abort`), and the insert of a row
whose key is clear for its transaction (`Safe.insert`). A key is clear when the
index was asked (`Clear.of_free`), or when the transaction saw nobody hold it
and no other open insert has it (`Clear.of_unseen`). -/
namespace Meho.Lib

variable {ρ κ : Type}

/-- A row as the database keeps it. -/
inductive Slot (ρ : Type) where
  | stable (row : ρ)
  | writing (row : ρ) (tx : Nat) (new : ρ)
  | fresh (tx : Nat) (new : ρ)
  | dead

namespace Slot

/-- The row that is left when the transactions of `ends` commit and the others do not. -/
def settle (ends : Nat → Bool) : Slot ρ → Option ρ
  | .stable row => some row
  | .writing row tx new => some (if ends tx then new else row)
  | .fresh tx new => if ends tx then some new else none
  | .dead => none

/-- What everybody can read. -/
def committed (s : Slot ρ) : Option ρ := s.settle fun _ => false

/-- What a statement of `tx` reads. -/
def seen (tx : Nat) (s : Slot ρ) : Option ρ := s.settle fun u => u == tx

/-- Another open transaction has written the row. -/
def lockedFor (tx : Nat) : Slot ρ → Bool
  | .writing _ u _ => u != tx
  | _ => false

/-- The statement `f` of `tx` on one row. -/
def write (tx : Nat) (f : ρ → ρ) : Slot ρ → Slot ρ
  | .stable row => .writing row tx (f row)
  | .writing row u new => if u = tx then .writing row u (f new) else .writing row u new
  | .fresh u new => if u = tx then .fresh u (f new) else .fresh u new
  | .dead => .dead

def commit (tx : Nat) : Slot ρ → Slot ρ
  | .writing row u new => if u = tx then .stable new else .writing row u new
  | .fresh u new => if u = tx then .stable new else .fresh u new
  | s => s

def abort (tx : Nat) : Slot ρ → Slot ρ
  | .writing row u new => if u = tx then .stable row else .writing row u new
  | .fresh u new => if u = tx then .dead else .fresh u new
  | s => s

/-- The slot stands in the way of an insert of `k` by `tx`, now or once a transaction ends. -/
def taken [DecidableEq κ] (key : ρ → Option κ) (tx : Nat) (k : κ) : Slot ρ → Bool
  | .stable row => key row = some k
  | .writing row u new => (u ≠ tx && key row = some k) || key new = some k
  | .fresh _ new => key new = some k
  | .dead => false

/-- It stands in the way only as long as another transaction is open. -/
def contested (tx : Nat) : Slot ρ → Bool
  | .writing _ u _ | .fresh u _ => u != tx
  | _ => false

theorem settle_commit (tx : Nat) (ends : Nat → Bool) (s : Slot ρ) :
    (s.commit tx).settle ends = s.settle fun u => u == tx || ends u := by
  cases s with
  | stable row => rfl
  | writing row u new | fresh u new =>
    by_cases hu : u = tx
    · simp [commit, settle, hu]
    · simp [commit, settle, hu]
  | dead => rfl

theorem settle_abort (tx : Nat) (ends : Nat → Bool) (s : Slot ρ) :
    (s.abort tx).settle ends = s.settle fun u => u != tx && ends u := by
  cases s with
  | stable row => rfl
  | writing row u new | fresh u new =>
    by_cases hu : u = tx
    · simp [abort, settle, hu]
    · simp [abort, settle, hu]
  | dead => rfl

theorem settle_write (tx : Nat) (f : ρ → ρ) (ends : Nat → Bool) (s : Slot ρ) :
    (s.write tx f).settle ends = s.settle ends ∨
      (s.write tx f).settle ends = (s.settle ends).map f := by
  cases s with
  | stable row =>
    cases hends : ends tx with
    | true => exact .inr (by simp [write, settle, hends])
    | false => exact .inl (by simp [write, settle, hends])
  | writing row u new | fresh u new =>
    by_cases hu : u = tx
    · subst hu
      cases hends : ends u with
      | true => exact .inr (by simp [write, settle, hends])
      | false => exact .inl (by simp [write, settle, hends])
    · exact .inl (by simp [write, hu])
  | dead => exact .inl rfl

/-- The open transaction that has a version of the row. -/
def owner : Slot ρ → Option Nat
  | .writing _ u _ | .fresh u _ => some u
  | _ => none

section Owner
variable {tx : Nat} {s : Slot ρ}

/-- A transaction that has not written the row sees what everybody sees. -/
theorem seen_of_owner_ne (h : s.owner ≠ some tx) : s.seen tx = s.committed := by
  cases s with
  | stable row => rfl
  | writing row u new | fresh u new =>
    have hu : u ≠ tx := fun heq => h (congrArg some heq)
    simp [seen, committed, settle, hu]
  | dead => rfl

theorem commit_of_owner_ne (h : s.owner ≠ some tx) : s.commit tx = s := by
  cases s with
  | stable row => rfl
  | writing row u new | fresh u new =>
      simp [commit, show u ≠ tx from fun heq => h (congrArg some heq)]
  | dead => rfl

theorem abort_of_owner_ne (h : s.owner ≠ some tx) : s.abort tx = s := by
  cases s with
  | stable row => rfl
  | writing row u new | fresh u new =>
      simp [abort, show u ≠ tx from fun heq => h (congrArg some heq)]
  | dead => rfl

theorem owner_commit_of_owner (h : s.owner = some tx) : (s.commit tx).owner = none := by
  cases s with
  | stable row => cases h
  | writing row u new | fresh u new =>
    cases h
    simp [commit, owner]
  | dead => cases h

theorem owner_abort_of_owner (h : s.owner = some tx) : (s.abort tx).owner = none := by
  cases s with
  | stable row => cases h
  | writing row u new | fresh u new =>
    cases h
    simp [abort, owner]
  | dead => cases h

theorem write_of_owner_other {f : ρ → ρ} {u : Nat} (hu : u ≠ tx)
    (h : s.owner = some u ∨ (s.write tx f).owner = some u) : s.write tx f = s := by
  cases s with
  | stable row =>
    rcases h with h | h
    · cases h
    · cases h
      exact absurd rfl hu
  | writing row v new | fresh v new =>
    by_cases hv : v = tx
    · subst hv
      rcases h with h | h
      · cases h
        exact absurd rfl hu
      · simp only [write, if_true, owner, Option.some.injEq] at h
        exact absurd h.symm hu
    · simp [write, hv]
  | dead => rfl

theorem committed_write (tx : Nat) (f : ρ → ρ) (s : Slot ρ) :
    (s.write tx f).committed = s.committed := by
  cases s with
  | stable row => rfl
  | writing row u new | fresh u new =>
    by_cases hu : u = tx
    · simp [write, committed, settle, hu]
    · simp [write, committed, settle, hu]
  | dead => rfl

/-- A rollback is not seen by anybody else. -/
theorem committed_abort (tx : Nat) (s : Slot ρ) : (s.abort tx).committed = s.committed := by
  unfold committed
  rw [settle_abort]
  simp

end Owner
end Slot

/-! ## Statements -/

/-- `UPDATE … WHERE`: none when a row it matches is locked, else the table and whether a row was
matched. The id of a row is its place. -/
def update (tx : Nat) (hits : Nat → ρ → Bool) (f : ρ → ρ) (slots : List (Slot ρ)) :
    Option (List (Slot ρ) × Bool) :=
  let hit := fun (i : Nat) (s : Slot ρ) => (s.seen tx).any (hits i)
  if (slots.mapIdx fun i s => hit i s && s.lockedFor tx).any id then none
  else some (slots.mapIdx fun i s => if hit i s then s.write tx f else s,
    (slots.mapIdx hit).any id)

/-- The answer of a unique index to an insert. -/
inductive IndexAnswer where
  | free
  | wait
  | duplicate
  deriving DecidableEq

def indexAnswer [DecidableEq κ] (key : ρ → Option κ) (tx : Nat) (k : κ) (slots : List (Slot ρ)) :
    IndexAnswer :=
  let hits := slots.filter (·.taken key tx k)
  if hits.isEmpty then .free
  else if hits.any (·.contested tx) then .wait
  else .duplicate

variable {hits : Nat → ρ → Bool} {f : ρ → ρ} {matched : Bool}

section
variable {tx : Nat} {slots slots' : List (Slot ρ)}
    (h : update tx hits f slots = some (slots', matched))
include h

theorem update_getElem? (i : Nat) :
    slots'[i]? = (slots[i]?).map fun s =>
      if (s.seen tx).any (hits i) then s.write tx f else s := by
  unfold update at h
  simp only at h
  split at h
  · cases h
  · simp only [Option.some.injEq, Prod.mk.injEq] at h
    obtain ⟨rfl, -⟩ := h
    rw [List.getElem?_mapIdx]

theorem update_unlocked {i : Nat} {s : Slot ρ} (hi : slots[i]? = some s)
    (hhit : (s.seen tx).any (hits i) = true) : s.lockedFor tx = false := by
  unfold update at h
  simp only at h
  split at h
  · cases h
  · rename_i hnone
    simp only [Bool.not_eq_true] at hnone
    rw [List.any_eq_false] at hnone
    cases hlocked : s.lockedFor tx with
    | false => rfl
    | true =>
      refine absurd rfl (hnone true ?_)
      rw [List.mem_iff_getElem?]
      refine ⟨i, ?_⟩
      rw [List.getElem?_mapIdx, hi]
      simp [hhit, hlocked]

theorem update_some {i : Nat} {s' : Slot ρ} (hi : slots'[i]? = some s') :
    ∃ s, slots[i]? = some s ∧ (s' = s ∨ s' = s.write tx f) := by
  rw [update_getElem? h] at hi
  obtain ⟨s, hs, hs'⟩ := Option.map_eq_some_iff.mp hi
  refine ⟨s, hs, ?_⟩
  split at hs'
  · exact .inr hs'.symm
  · exact .inl hs'.symm

end

/-- An update of one row that `tx` has not written yet leaves the row with its version, and the
others as they are. -/
theorem update_one {tx n : Nat} {slots slots' : List (Slot ρ)}
    (h : update tx (fun i _ => i = n) f slots = some (slots', matched)) {s : Slot ρ} {row : ρ}
    (hs : slots[n]? = some s) (hrow : s.committed = some row) (hnot : s.owner ≠ some tx) :
    slots' = slots.set n (.writing row tx (f row)) := by
  have hhit : (s.seen tx).any (fun _ => decide (n = n)) = true := by
    rw [Slot.seen_of_owner_ne hnot, hrow]
    simp
  have hlock := update_unlocked h hs hhit
  apply List.ext_getElem?
  intro i
  rw [update_getElem? h]
  by_cases hi : i = n
  · subst hi
    rw [List.getElem?_set_self (List.getElem?_eq_some_iff.mp hs).1, hs, Option.map_some,
      if_pos hhit]
    cases s with
    | stable r =>
      cases hrow
      rfl
    | writing r u new =>
      simp only [Slot.lockedFor, bne_eq_false_iff_eq] at hlock
      exact absurd (congrArg some hlock) hnot
    | fresh u new => cases hrow
    | dead => cases hrow
  · rw [List.getElem?_set_ne (Ne.symm hi)]
    cases slots[i]? with
    | none => rfl
    | some s' =>
      have hmiss : (s'.seen tx).any (fun _ => decide (i = n)) = false := by
        cases s'.seen tx <;> simp [hi]
      rw [Option.map_some, hmiss]
      rfl

/-! ## Keys -/

/-- The key a slot holds when the transactions of `ends` commit. -/
def held (key : ρ → Option κ) (ends : Nat → Bool) (s : Slot ρ) : Option κ :=
  (s.settle ends).bind key

/-- The statement gives the row no key it did not have. -/
def GivesUp (key : ρ → Option κ) (f : ρ → ρ) : Prop := ∀ r k, key (f r) = some k → key r = some k

theorem GivesUp.held {key : ρ → Option κ} (hf : GivesUp key f) {tx : Nat} {ends : Nat → Bool}
    {s : Slot ρ} {k : κ} (h : held key ends (s.write tx f) = some k) :
    held key ends s = some k := by
  unfold Lib.held at h ⊢
  rcases Slot.settle_write tx f ends s with hsame | hmap
  · rw [hsame] at h
    exact h
  · rw [hmap] at h
    cases hs : s.settle ends with
    | none => simp [hs] at h
    | some r =>
      simp only [hs, Option.map_some, Option.bind_some] at h ⊢
      exact hf r k h

/-- The index is unique, whichever open transactions commit. -/
def Safe (key : ρ → Option κ) (slots : List (Slot ρ)) : Prop :=
  ∀ ends, UniqueIndex (held key ends) slots

/-- No row holds `k` once `tx` commits, whichever others do. -/
def Clear (key : ρ → Option κ) (tx : Nat) (k : κ) (slots : List (Slot ρ)) : Prop :=
  ∀ ends, ends tx = true → ∀ s ∈ slots, held key ends s ≠ some k

section Rules
variable {key : ρ → Option κ} {slots slots' : List (Slot ρ)} {tx : Nat}

theorem Safe.nil (key : ρ → Option κ) : Safe key [] := fun _ => UniqueIndex.nil _

/-- What everybody can read has unique keys. -/
theorem Safe.committed (h : Safe key slots) :
    UniqueIndex (fun s => s.committed.bind key) slots := h fun _ => false

variable {f : ρ → ρ} {hits : Nat → ρ → Bool} {matched : Bool}

theorem Safe.update (h : Safe key slots) (hf : GivesUp key f)
    (hupdate : update tx hits f slots = some (slots', matched)) : Safe key slots' := by
  intro ends
  apply (h ends).of_subset
  intro i s' k hi hk
  obtain ⟨s, hs, rfl | rfl⟩ := update_some hupdate hi
  · exact ⟨s', hs, hk⟩
  · exact ⟨s, hs, hf.held hk⟩

theorem held_commit (key : ρ → Option κ) (tx : Nat) (ends : Nat → Bool) (s : Slot ρ) :
    held key ends (s.commit tx) = held key (fun u => u == tx || ends u) s := by
  unfold held
  rw [Slot.settle_commit]

theorem held_abort (key : ρ → Option κ) (tx : Nat) (ends : Nat → Bool) (s : Slot ρ) :
    held key ends (s.abort tx) = held key (fun u => u != tx && ends u) s := by
  unfold held
  rw [Slot.settle_abort]

/-- The rows that `g` leaves hold what the old ones do in the world `ends`. -/
theorem uniqueIndex_map {g : Slot ρ → Slot ρ} {ends ends' : Nat → Bool}
    (hg : ∀ s, held key ends' (g s) = held key ends s)
    (h : UniqueIndex (held key ends) slots) : UniqueIndex (held key ends') (slots.map g) := by
  intro i j r r' k hi hj hk hk'
  rw [List.getElem?_map] at hi hj
  obtain ⟨x, hx, rfl⟩ := Option.map_eq_some_iff.mp hi
  obtain ⟨y, hy, rfl⟩ := Option.map_eq_some_iff.mp hj
  rw [hg] at hk hk'
  exact h i j x y k hx hy hk hk'

theorem Safe.commit (h : Safe key slots) (tx : Nat) : Safe key (slots.map (·.commit tx)) :=
  fun ends => uniqueIndex_map (held_commit key tx ends) (h _)

theorem Safe.abort (h : Safe key slots) (tx : Nat) : Safe key (slots.map (·.abort tx)) :=
  fun ends => uniqueIndex_map (held_abort key tx ends) (h _)

variable {new : ρ}

theorem Safe.insert (h : Safe key slots) (hclear : ∀ k, key new = some k → Clear key tx k slots) :
    Safe key (slots ++ [.fresh tx new]) := by
  intro ends
  apply (h ends).append
  intro i s k hi hk hnew
  have hmem : s ∈ slots := List.mem_of_getElem? hi
  unfold held Slot.settle at hnew
  simp only at hnew
  split at hnew
  · rename_i hends
    exact hclear k hnew ends hends s hmem hk
  · simp at hnew

variable {k : κ}

theorem Clear.of_free [DecidableEq κ] (h : indexAnswer key tx k slots = .free) :
    Clear key tx k slots := by
  have hfree : ∀ s ∈ slots, s.taken key tx k = false := by
    unfold indexAnswer at h
    simp only at h
    split at h
    · rename_i hempty
      have hnil := List.isEmpty_iff.mp hempty
      intro s hs
      have := List.filter_eq_nil_iff.mp hnil s hs
      simpa using this
    · split at h <;> cases h
  intro ends hends s hs
  have hnot := hfree s hs
  unfold held
  cases s with
  | stable row => simpa [Slot.taken, Slot.settle] using hnot
  | writing row u new =>
    simp only [Slot.taken, Bool.or_eq_false_iff, Bool.and_eq_false_iff, decide_eq_false_iff_not,
      ne_eq, Decidable.not_not] at hnot
    simp only [Slot.settle, Option.bind_some]
    split
    · exact hnot.2
    · rename_i hu
      rcases hnot.1 with heq | hrow
      · rw [heq] at hu
        exact absurd hends hu
      · exact hrow
  | fresh u new =>
    simp only [Slot.taken, decide_eq_false_iff_not] at hnot
    simp only [Slot.settle]
    split
    · exact hnot
    · simp
  | dead => simp [Slot.settle]

/-- No version an open transaction has written holds a key its row does not. -/
def Shrinking (key : ρ → Option κ) (slots : List (Slot ρ)) : Prop :=
  ∀ row u new, Slot.writing row u new ∈ slots → ∀ k, key new = some k → key row = some k

theorem Shrinking.nil (key : ρ → Option κ) : Shrinking key [] := by
  intro row u new h
  cases h

theorem Shrinking.update (h : Shrinking key slots) (hf : GivesUp key f)
    (hupdate : Lib.update tx hits f slots = some (slots', matched)) : Shrinking key slots' := by
  intro row u new hmem k hk
  obtain ⟨i, hi⟩ := List.mem_iff_getElem?.mp hmem
  obtain ⟨s, hs, hsame | hwrite⟩ := update_some hupdate hi
  · subst hsame
    exact h row u new (List.mem_of_getElem? hs) k hk
  · cases s with
    | stable r =>
      simp only [Slot.write, Slot.writing.injEq] at hwrite
      obtain ⟨rfl, -, rfl⟩ := hwrite
      exact hf _ k hk
    | writing r v old =>
      have hold := h r v old (List.mem_of_getElem? hs)
      simp only [Slot.write] at hwrite
      split at hwrite
      · simp only [Slot.writing.injEq] at hwrite
        obtain ⟨rfl, -, rfl⟩ := hwrite
        exact hold k (hf _ k hk)
      · simp only [Slot.writing.injEq] at hwrite
        obtain ⟨rfl, -, rfl⟩ := hwrite
        exact hold k hk
    | fresh v old =>
      simp only [Slot.write] at hwrite
      split at hwrite <;> cases hwrite
    | dead => cases hwrite

/-- A transaction has ended: what is left is stable, open for another, or gone. -/
def Ended (tx : Nat) (slots slots' : List (Slot ρ)) : Prop :=
  ∀ s' ∈ slots', (∃ row, s' = .stable row) ∨ (s' ∈ slots ∧ s'.contested tx = true) ∨ s' = .dead

theorem Ended.commit (tx : Nat) (slots : List (Slot ρ)) :
    Ended tx slots (slots.map (·.commit tx)) := by
  intro s' h
  obtain ⟨s, hs, rfl⟩ := List.mem_map.mp h
  cases s with
  | stable row => exact .inl ⟨row, rfl⟩
  | writing row u new | fresh u new =>
    by_cases hu : u = tx
    · exact .inl ⟨new, by simp [Slot.commit, hu]⟩
    · refine .inr (.inl ?_)
      simpa [Slot.commit, Slot.contested, hu] using hs
  | dead => exact .inr (.inr rfl)

theorem Ended.abort (tx : Nat) (slots : List (Slot ρ)) :
    Ended tx slots (slots.map (·.abort tx)) := by
  intro s' h
  obtain ⟨s, hs, rfl⟩ := List.mem_map.mp h
  cases s with
  | stable row => exact .inl ⟨row, rfl⟩
  | writing row u new =>
    by_cases hu : u = tx
    · exact .inl ⟨row, by simp [Slot.abort, hu]⟩
    · refine .inr (.inl ?_)
      simpa [Slot.abort, Slot.contested, hu] using hs
  | fresh u new =>
    by_cases hu : u = tx
    · exact .inr (.inr (by simp [Slot.abort, hu]))
    · refine .inr (.inl ?_)
      simpa [Slot.abort, Slot.contested, hu] using hs
  | dead => exact .inr (.inr rfl)

theorem Ended.owner_ne (hend : Ended tx slots slots') {i : Nat} {s : Slot ρ}
    (hi : slots'[i]? = some s) : s.owner ≠ some tx := by
  rcases hend s (List.mem_of_getElem? hi) with ⟨row, rfl⟩ | ⟨-, hother⟩ | rfl
  · simp [Slot.owner]
  · cases s with
    | stable row | dead => simp [Slot.owner]
    | writing row u new | fresh u new => simpa [Slot.owner, Slot.contested] using hother
  · simp [Slot.owner]

theorem Shrinking.ended (h : Shrinking key slots) (hend : Ended tx slots slots') :
    Shrinking key slots' := by
  intro row u new hmem
  rcases hend _ hmem with ⟨r, hr⟩ | ⟨hold, -⟩ | hdead
  · cases hr
  · exact h row u new hold
  · cases hdead

variable {u : Nat}

theorem Ended.fresh (hend : Ended tx slots slots') (hmem : Slot.fresh u new ∈ slots') :
    Slot.fresh u new ∈ slots ∧ u ≠ tx := by
  rcases hend _ hmem with ⟨r, hr⟩ | ⟨hold, hother⟩ | hdead
  · cases hr
  · refine ⟨hold, ?_⟩
    simpa [Slot.contested] using hother
  · cases hdead

theorem Shrinking.insert (h : Shrinking key slots) (new : ρ) :
    Shrinking key (slots ++ [.fresh tx new]) := by
  intro row u n hmem
  rcases List.mem_append.mp hmem with hold | hlast
  · exact h row u n hold
  · cases List.mem_singleton.mp hlast

theorem fresh_of_update (hf : GivesUp key f)
    (hupdate : Lib.update tx hits f slots = some (slots', matched))
    (hmem : Slot.fresh u new ∈ slots') (hk : key new = some k) :
    ∃ old, Slot.fresh u old ∈ slots ∧ key old = some k := by
  obtain ⟨i, hi⟩ := List.mem_iff_getElem?.mp hmem
  obtain ⟨s, hs, hsame | hwrite⟩ := update_some hupdate hi
  · subst hsame
    exact ⟨new, List.mem_of_getElem? hs, hk⟩
  · have hmem' := List.mem_of_getElem? hs
    cases s with
    | stable r => cases hwrite
    | writing r v old =>
      simp only [Slot.write] at hwrite
      split at hwrite <;> cases hwrite
    | fresh v old =>
      simp only [Slot.write] at hwrite
      split at hwrite
      · simp only [Slot.fresh.injEq] at hwrite
        obtain ⟨rfl, rfl⟩ := hwrite
        exact ⟨old, hmem', hf _ k hk⟩
      · simp only [Slot.fresh.injEq] at hwrite
        obtain ⟨rfl, rfl⟩ := hwrite
        exact ⟨new, hmem', hk⟩
    | dead => cases hwrite

/-- The transaction sees nobody hold the key, and no open insert of another has it. -/
theorem Clear.of_unseen (hshrink : Shrinking key slots)
    (hseen : ∀ s ∈ slots, (s.seen tx).bind key ≠ some k)
    (hfresh : ∀ u new, Slot.fresh u new ∈ slots → u ≠ tx → key new ≠ some k) :
    Clear key tx k slots := by
  intro ends hends s hs
  have hnot := hseen s hs
  unfold held
  cases s with
  | stable row => exact hnot
  | writing row u new =>
    simp only [Slot.seen, Slot.settle, Option.bind_some] at hnot ⊢
    by_cases hu : u = tx
    · subst hu
      simp only [beq_self_eq_true, if_true] at hnot
      simpa only [hends, if_true] using hnot
    · rw [if_neg (by simpa using hu)] at hnot
      split
      · intro hnew
        exact hnot (hshrink row u new hs k hnew)
      · exact hnot
  | fresh u new =>
    simp only [Slot.settle]
    by_cases hu : u = tx
    · subst hu
      simpa [Slot.seen, Slot.settle, hends] using hnot
    · split
      · exact hfresh u new hs hu
      · simp
  | dead => simp [Slot.settle]

theorem Clear.of_key {κ' : Type} {key' : ρ → Option κ'} {k' : κ'}
    (hkey : ∀ r, key r = some k → key' r = some k') (h : Clear key' tx k' slots) :
    Clear key tx k slots := by
  intro ends hends s hs hk
  refine h ends hends s hs ?_
  unfold held at hk ⊢
  cases hr : s.settle ends with
  | none => simp [hr] at hk
  | some r =>
    simp only [hr, Option.bind_some] at hk ⊢
    exact hkey r hk

section
variable (h : Clear key tx k slots)
include h

theorem Clear.update (hf : GivesUp key f)
    (hupdate : Lib.update u hits f slots = some (slots', matched)) : Clear key tx k slots' := by
  intro ends hends s' hs' hk
  obtain ⟨i, hi⟩ := List.mem_iff_getElem?.mp hs'
  obtain ⟨s, hs, rfl | rfl⟩ := update_some hupdate hi
  · exact h ends hends s' (List.mem_of_getElem? hs) hk
  · exact h ends hends s (List.mem_of_getElem? hs) (hf.held hk)

theorem Clear.commit (u : Nat) : Clear key tx k (slots.map (·.commit u)) := by
  intro ends hends s' hs'
  obtain ⟨s, hs, rfl⟩ := List.mem_map.mp hs'
  rw [held_commit]
  exact h _ (by simp [hends]) s hs

theorem Clear.abort (hu : tx ≠ u) : Clear key tx k (slots.map (·.abort u)) := by
  intro ends hends s' hs'
  obtain ⟨s, hs, rfl⟩ := List.mem_map.mp hs'
  rw [held_abort]
  exact h _ (by simp [hends, hu]) s hs

theorem Clear.insert (hnew : key new ≠ some k) : Clear key tx k (slots ++ [.fresh u new]) := by
  intro ends hends s hs
  rcases List.mem_append.mp hs with hold | hlast
  · exact h ends hends s hold
  · rw [List.mem_singleton] at hlast
    subst hlast
    unfold held Slot.settle
    simp only
    split
    · exact hnew
    · simp

end

end Rules

/-! ## What is true of every version -/

/-- Every row that may be left satisfies `P`, whichever open transactions commit. -/
def Throughout (P : ρ → Prop) (slots : List (Slot ρ)) : Prop :=
  ∀ ends, ∀ s ∈ slots, ∀ r, s.settle ends = some r → P r

section Throughout
variable {P : ρ → Prop} {slots slots' : List (Slot ρ)} {tx : Nat}

theorem Throughout.nil (P : ρ → Prop) : Throughout P [] := by
  intro ends s hs
  cases hs

section
variable (h : Throughout P slots)
include h

theorem Throughout.update {f : ρ → ρ} (hf : ∀ r, P r → P (f r)) {hits : Nat → ρ → Bool}
    {matched : Bool} (hupdate : Lib.update tx hits f slots = some (slots', matched)) :
    Throughout P slots' := by
  intro ends s' hs' r hr
  obtain ⟨i, hi⟩ := List.mem_iff_getElem?.mp hs'
  obtain ⟨s, hs, rfl | rfl⟩ := update_some hupdate hi
  · exact h ends s' (List.mem_of_getElem? hs) r hr
  · have hold := h ends s (List.mem_of_getElem? hs)
    rcases Slot.settle_write tx f ends s with hsame | hmap
    · rw [hsame] at hr
      exact hold r hr
    · rw [hmap] at hr
      obtain ⟨r₀, hr₀, rfl⟩ := Option.map_eq_some_iff.mp hr
      exact hf r₀ (hold r₀ hr₀)

theorem Throughout.commit (tx : Nat) : Throughout P (slots.map (·.commit tx)) := by
  intro ends s' hs' r hr
  obtain ⟨s, hs, rfl⟩ := List.mem_map.mp hs'
  rw [Slot.settle_commit] at hr
  exact h _ s hs r hr

theorem Throughout.abort (tx : Nat) : Throughout P (slots.map (·.abort tx)) := by
  intro ends s' hs' r hr
  obtain ⟨s, hs, rfl⟩ := List.mem_map.mp hs'
  rw [Slot.settle_abort] at hr
  exact h _ s hs r hr

theorem Throughout.insert {new : ρ} (hnew : P new) : Throughout P (slots ++ [.fresh tx new]) := by
  intro ends s hs r hr
  rcases List.mem_append.mp hs with hold | hlast
  · exact h ends s hold r hr
  · rw [List.mem_singleton] at hlast
    subst hlast
    simp only [Slot.settle] at hr
    split at hr
    · cases hr
      exact hnew
    · cases hr

end

end Throughout

/-! ## The rows of the others -/

/-- A step of `tx` keeps the key of every committed row and the versions of the others. -/
structure Aside (key : ρ → κ) (tx : Nat) (slots slots' : List (Slot ρ)) : Prop where
  keeps : ∀ (i : Nat) (s : Slot ρ) (row : ρ), slots[i]? = some s → s.committed = some row →
    ∃ s' row', slots'[i]? = some s' ∧ s'.committed = some row' ∧ key row' = key row
  forth : ∀ (i : Nat) (s : Slot ρ) (u : Nat), slots[i]? = some s → s.owner = some u → u ≠ tx →
    slots'[i]? = some s
  back : ∀ (i : Nat) (s : Slot ρ) (u : Nat), slots'[i]? = some s → s.owner = some u → u ≠ tx →
    slots[i]? = some s

namespace Aside
variable {key : ρ → κ} {tx : Nat} {slots slots' : List (Slot ρ)}

theorem refl (key : ρ → κ) (tx : Nat) (slots : List (Slot ρ)) : Aside key tx slots slots where
  keeps _ s row hi hs := ⟨s, row, hi, hs, rfl⟩
  forth _ _ _ hi _ _ := hi
  back _ _ _ hi _ _ := hi

theorem update {hits : Nat → ρ → Bool} {f : ρ → ρ} {matched : Bool}
    (h : Lib.update tx hits f slots = some (slots', matched)) : Aside key tx slots slots' where
  keeps i s row hi hs := by
    refine ⟨_, row, by rw [update_getElem? h, hi, Option.map_some], ?_, rfl⟩
    split
    · rw [Slot.committed_write]
      exact hs
    · exact hs
  forth i s u hi hs hu := by
    rw [update_getElem? h, hi, Option.map_some, Slot.write_of_owner_other hu (.inl hs), ite_self]
  back i s' u hi hs' hu := by
    obtain ⟨s, hs, rfl | rfl⟩ := update_some h hi
    · exact hs
    · rw [Slot.write_of_owner_other hu (.inr hs')]
      exact hs

theorem insert (key : ρ → κ) (tx : Nat) (slots : List (Slot ρ)) (new : ρ) :
    Aside key tx slots (slots ++ [.fresh tx new]) where
  keeps i s row hi hs := by
    refine ⟨s, row, ?_, hs, rfl⟩
    rw [List.getElem?_append_left (List.getElem?_eq_some_iff.mp hi).1]
    exact hi
  forth i s u hi _ _ := by
    rw [List.getElem?_append_left (List.getElem?_eq_some_iff.mp hi).1]
    exact hi
  back i s u hi hs hu := by
    rcases getElem?_snoc hi with hold | ⟨-, rfl⟩
    · exact hold
    · cases hs
      exact absurd rfl hu

theorem abort (key : ρ → κ) (tx : Nat) (slots : List (Slot ρ)) :
    Aside key tx slots (slots.map (·.abort tx)) where
  keeps i s row hi hs := by
    refine ⟨s.abort tx, row, by rw [List.getElem?_map, hi, Option.map_some], ?_, rfl⟩
    rw [Slot.committed_abort]
    exact hs
  forth i s u hi hs hu := by
    have hne : s.owner ≠ some tx := by
      rw [hs]
      simpa using hu
    rw [List.getElem?_map, hi, Option.map_some, Slot.abort_of_owner_ne hne]
  back i s' u hi hs' _ := by
    rw [List.getElem?_map] at hi
    obtain ⟨s, hs, rfl⟩ := Option.map_eq_some_iff.mp hi
    by_cases howner : s.owner = some tx
    · rw [Slot.owner_abort_of_owner howner] at hs'
      cases hs'
    · rw [Slot.abort_of_owner_ne howner]
      exact hs

/-- A version that is committed has the key of its row. -/
theorem commit (hkey : ∀ row u new, Slot.writing row u new ∈ slots → key new = key row) :
    Aside key tx slots (slots.map (·.commit tx)) where
  keeps i s row hi hs := by
    have hi' : (slots.map (·.commit tx))[i]? = some (s.commit tx) := by
      rw [List.getElem?_map, hi, Option.map_some]
    by_cases howner : s.owner = some tx
    · cases s with
      | stable r => cases howner
      | writing r u new =>
        cases howner
        cases hs
        exact ⟨_, new, hi', by simp [Slot.commit, Slot.committed, Slot.settle],
          hkey _ tx new (List.mem_of_getElem? hi)⟩
      | fresh u new => cases hs
      | dead => cases howner
    · rw [Slot.commit_of_owner_ne howner] at hi'
      exact ⟨s, row, hi', hs, rfl⟩
  forth i s u hi hs hu := by
    have hne : s.owner ≠ some tx := by
      rw [hs]
      simpa using hu
    rw [List.getElem?_map, hi, Option.map_some, Slot.commit_of_owner_ne hne]
  back i s' u hi hs' _ := by
    rw [List.getElem?_map] at hi
    obtain ⟨s, hs, rfl⟩ := Option.map_eq_some_iff.mp hi
    by_cases howner : s.owner = some tx
    · rw [Slot.owner_commit_of_owner howner] at hs'
      cases hs'
    · rw [Slot.commit_of_owner_ne howner]
      exact hs

end Aside

end Meho.Lib
