import Mathlib.Data.List.Basic

/- Transactions that may raise.

`Tx σ ε α` reads and writes a state and either answers or raises. The state at
the point of a raise is kept, so that "a raise leaves the state as it was" is a
statement about the code's order of checks and writes, not about a rollback.

`Tx.ReadOnly` computations write nothing; `Tx.RaisesClean` computations write
nothing before they raise. The rules build the second from the first: checks
that only read may be followed by anything that raises clean
(`RaisesClean.bind`), and what cannot raise raises clean
(`RaisesClean.modify`). -/
namespace Meho.Lib

/-- A transaction over `σ` that may raise `ε`. -/
def Tx (σ ε α : Type) : Type := σ → Except ε α × σ

namespace Tx
variable {σ ε α β : Type}

def pure (a : α) : Tx σ ε α := fun s => (.ok a, s)

def bind (x : Tx σ ε α) (f : α → Tx σ ε β) : Tx σ ε β := fun s =>
  match x s with
  | (.ok a, s') => f a s'
  | (.error e, s') => (.error e, s')

instance : Monad (Tx σ ε) where
  pure := Tx.pure
  bind := Tx.bind

/-- Read the state. -/
def read : Tx σ ε σ := fun s => (.ok s, s)

/-- Write the state. -/
def modify (f : σ → σ) : Tx σ ε Unit := fun s => (.ok (), f s)

def raise (e : ε) : Tx σ ε α := fun s => (.error e, s)

/-- A check that reads nothing of the state: its answer, or its error. -/
def lift (x : Except ε α) : Tx σ ε α := fun s => (x, s)

@[simp] theorem pure_apply (a : α) (s : σ) : (Pure.pure a : Tx σ ε α) s = (.ok a, s) := rfl

theorem bind_apply (x : Tx σ ε α) (f : α → Tx σ ε β) (s : σ) :
    (x >>= f) s = match x s with
      | (.ok a, s') => f a s'
      | (.error e, s') => (.error e, s') := rfl

@[simp] theorem read_apply (s : σ) : (read : Tx σ ε σ) s = (.ok s, s) := rfl

@[simp] theorem modify_apply (f : σ → σ) (s : σ) :
    (modify f : Tx σ ε Unit) s = (.ok (), f s) := rfl

@[simp] theorem lift_apply (x : Except ε α) (s : σ) : (lift x : Tx σ ε α) s = (x, s) := rfl

/-- The computation writes nothing. -/
def ReadOnly (x : Tx σ ε α) : Prop := ∀ s, (x s).2 = s

/-- The computation has written nothing when it raises. -/
def RaisesClean (x : Tx σ ε α) : Prop := ∀ s e s', x s = (.error e, s') → s' = s

theorem ReadOnly.pure (a : α) : ReadOnly (Pure.pure a : Tx σ ε α) := fun _ => rfl

theorem ReadOnly.read : ReadOnly (read : Tx σ ε σ) := fun _ => rfl

theorem ReadOnly.raise (e : ε) : ReadOnly (raise e : Tx σ ε α) := fun _ => rfl

theorem ReadOnly.lift (x : Except ε α) : ReadOnly (lift x : Tx σ ε α) := fun _ => rfl

variable {x : Tx σ ε α} {f : α → Tx σ ε β}

theorem ReadOnly.bind (hx : ReadOnly x) (hf : ∀ a, ReadOnly (f a)) : ReadOnly (x >>= f) := by
  intro s
  have hs := hx s
  rw [bind_apply]
  rcases hxs : x s with ⟨r, s'⟩
  rw [hxs] at hs
  subst hs
  cases r with
  | ok a => exact hf a s'
  | error e => rfl

theorem ReadOnly.ite {c : Prop} [Decidable c] {y : Tx σ ε α} (hx : ReadOnly x) (hy : ReadOnly y) :
    ReadOnly (if c then x else y) := by
  split
  · exact hx
  · exact hy

theorem RaisesClean.modify (f : σ → σ) : RaisesClean (modify f : Tx σ ε Unit) := by
  intro s e s' h
  cases h

theorem RaisesClean.modify_pure (f : σ → σ) (a : α) :
    RaisesClean (do Tx.modify f; Pure.pure a : Tx σ ε α) := by
  intro s e s' h
  cases h

/-- Reads first, writes after: a raise of either part finds the state untouched. -/
theorem RaisesClean.bind (hx : ReadOnly x) (hf : ∀ a, RaisesClean (f a)) :
    RaisesClean (x >>= f) := by
  intro s e s' h
  have hs := hx s
  rw [bind_apply] at h
  rcases hxs : x s with ⟨r, s₁⟩
  rw [hxs] at h hs
  subst hs
  cases r with
  | ok a => exact hf a _ e s' h
  | error e' => cases h; rfl

variable {s' : σ}

theorem lift_eq_ok {x : Except ε α} {s : σ} {a : α} (h : (lift x : Tx σ ε α) s = (.ok a, s')) :
    x = .ok a := by
  simp only [lift_apply, Prod.mk.injEq] at h
  exact h.1

/-- What a run of a chain that ended in an answer went through. -/
theorem bind_eq_ok {s : σ} {b : β} (h : (x >>= f) s = (.ok b, s')) :
    ∃ a s₁, x s = (.ok a, s₁) ∧ f a s₁ = (.ok b, s') := by
  rw [bind_apply] at h
  rcases hx : x s with ⟨r, s₁⟩
  rw [hx] at h
  cases r with
  | ok a => exact ⟨a, s₁, rfl, h⟩
  | error e => cases h

theorem ReadOnly.bind_eq_ok {s : σ} {b : β} (hx : ReadOnly x) (h : (x >>= f) s = (.ok b, s')) :
    ∃ a, x s = (.ok a, s) ∧ f a s = (.ok b, s') := by
  obtain ⟨a, s₁, hxs, hf⟩ := Tx.bind_eq_ok h
  have hs := hx s
  rw [hxs] at hs
  subst hs
  exact ⟨a, hxs, hf⟩

end Tx

/-- Inversion of a mapped answer. -/
theorem except_map_eq_ok {ε α β : Type} {f : α → β} {x : Except ε α} {b : β}
    (h : x.map f = .ok b) : ∃ a, x = .ok a ∧ b = f a := by
  cases x with
  | error e => cases h
  | ok a => cases h; exact ⟨a, rfl, rfl⟩

section
variable {ε α β : Type} {f : α → Except ε β}

theorem except_bind_eq_ok {x : Except ε α} {b : β} (h : x >>= f = .ok b) :
    ∃ a, x = .ok a ∧ f a = .ok b := by
  cases x with
  | error e => cases h
  | ok a => exact ⟨a, rfl, h⟩

theorem mem_of_except_mapM {xs : List α} {ys : List β} (h : xs.mapM f = .ok ys) {y : β} :
    y ∈ ys ↔ ∃ x ∈ xs, f x = .ok y := by
  induction xs generalizing ys with
  | nil =>
    obtain rfl : [] = ys := Except.ok.inj h
    simp
  | cons x xs ih =>
    rw [List.mapM_cons] at h
    obtain ⟨y₀, hy₀, h⟩ := except_bind_eq_ok h
    obtain ⟨ys₀, hys₀, h⟩ := except_bind_eq_ok h
    obtain rfl : y₀ :: ys₀ = ys := Except.ok.inj h
    rw [List.mem_cons, ih hys₀]
    constructor
    · rintro (rfl | ⟨x', hx', hf⟩)
      · exact ⟨x, List.mem_cons_self, hy₀⟩
      · exact ⟨x', List.mem_cons_of_mem x hx', hf⟩
    · rintro ⟨x', hx', hf⟩
      rcases List.mem_cons.mp hx' with rfl | hx'
      · exact .inl (Except.ok.inj (hf.symm.trans hy₀))
      · exact .inr ⟨x', hx', hf⟩

theorem exists_of_except_mapM {xs : List α} {ys : List β} (h : xs.mapM f = .ok ys) {x : α}
    (hx : x ∈ xs) : ∃ y, f x = .ok y := by
  induction xs generalizing ys with
  | nil => cases hx
  | cons a xs ih =>
    rw [List.mapM_cons] at h
    obtain ⟨y, hy, h⟩ := except_bind_eq_ok h
    obtain ⟨ys₀, hys₀, -⟩ := except_bind_eq_ok h
    rcases List.mem_cons.mp hx with rfl | hx
    · exact ⟨y, hy⟩
    · exact ih hys₀ hx

end

end Meho.Lib
