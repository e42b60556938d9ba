import Mathlib.Data.List.Induction

/- Hash chains.

A record has a number, the digest of the record before it, a body and a digest
of its own, which is derived from the other two. `Linked` is the test of one
record against the head of a chain, the last number and the last digest, and
`Chained` the test of a list of records. A chain may be tested piece by piece
(`chained_append`), and its numbers are consecutive (`Chained.seq_eq`).

When the digest determines what it is derived from, a digest stands for the
whole chain up to its record: two chains with one start that show one digest
are the same up to there (`Chained.pinned`). -/
namespace Meho.Lib

/-- How the records of a chain are read, and how a digest is derived. -/
structure Chaining (ρ δ β : Type) where
  seq : ρ → Int
  prev : ρ → δ
  own : ρ → δ
  body : ρ → β
  derive : δ → β → δ

/-- Where a chain stands: the last number and the last digest. -/
structure ChainHead (δ : Type) where
  lastSeq : Int
  lastHash : δ
  deriving DecidableEq

variable {ρ δ β : Type}

namespace Chaining
variable (K : Chaining ρ δ β)

/-- The head after one more record. -/
def next (_ : ChainHead δ) (r : ρ) : ChainHead δ := ⟨K.seq r, K.own r⟩

/-- The head after a list of records. -/
def after (head : ChainHead δ) (records : List ρ) : ChainHead δ := records.foldl K.next head

/-- The record is the next one of the chain. -/
structure Linked (head : ChainHead δ) (r : ρ) : Prop where
  seq_eq : K.seq r = head.lastSeq + 1
  prev_eq : K.prev r = head.lastHash
  own_eq : K.derive (K.prev r) (K.body r) = K.own r

/-- The records continue the chain. -/
def Chained : ChainHead δ → List ρ → Prop
  | _, [] => True
  | head, r :: records => K.Linked head r ∧ Chained (K.next head r) records

variable {K}

@[simp] theorem after_nil (head : ChainHead δ) : K.after head [] = head := rfl

@[simp] theorem after_cons (head : ChainHead δ) (r : ρ) (records : List ρ) :
    K.after head (r :: records) = K.after (K.next head r) records := rfl

theorem after_append (head : ChainHead δ) (xs ys : List ρ) :
    K.after head (xs ++ ys) = K.after (K.after head xs) ys := List.foldl_append

variable {head : ChainHead δ} {xs ys : List ρ}

theorem chained_append :
    K.Chained head (xs ++ ys) ↔ K.Chained head xs ∧ K.Chained (K.after head xs) ys := by
  induction xs generalizing head with
  | nil => simp [Chained]
  | cons r xs ih =>
    simp only [List.cons_append, Chained, after_cons, ih]
    exact and_assoc.symm

theorem chained_singleton {r : ρ} : K.Chained head [r] ↔ K.Linked head r := by
  simp [Chained]

variable {records : List ρ}

section
variable (h : K.Chained head records)
include h

theorem Chained.lastSeq_after : (K.after head records).lastSeq = head.lastSeq + records.length := by
  induction records generalizing head with
  | nil => simp
  | cons r records ih =>
    obtain ⟨hlink, hrest⟩ := h
    rw [after_cons, ih hrest]
    have hseq := hlink.seq_eq
    simp only [next, List.length_cons]
    omega

theorem Chained.seq_eq {i : Nat} {r : ρ} (hr : records[i]? = some r) :
    K.seq r = head.lastSeq + 1 + i := by
  induction records generalizing head i with
  | nil => simp at hr
  | cons x records ih =>
    obtain ⟨hlink, hrest⟩ := h
    cases i with
    | zero =>
      simp only [List.getElem?_cons_zero, Option.some.injEq] at hr
      subst hr
      simpa using hlink.seq_eq
    | succ i =>
      simp only [List.getElem?_cons_succ] at hr
      have hseq := ih hrest hr
      have hx := hlink.seq_eq
      simp only [next] at hseq
      omega

theorem Chained.seq_unique {i j : Nat} {r r' : ρ} (hr : records[i]? = some r)
    (hr' : records[j]? = some r') (hseq : K.seq r = K.seq r') : i = j := by
  have hi := h.seq_eq hr
  have hj := h.seq_eq hr'
  omega

theorem Chained.countP_seq_le (n : Int) : records.countP (fun r => K.seq r = n) ≤ 1 := by
  induction records generalizing head with
  | nil => simp
  | cons r records ih =>
    obtain ⟨hlink, hrest⟩ := h
    rw [List.countP_cons]
    split
    · rename_i hr
      -- the numbers behind it are larger
      have hnone : records.countP (fun r => K.seq r = n) = 0 := by
        rw [List.countP_eq_zero]
        intro x hx hxn
        obtain ⟨i, hi⟩ := List.mem_iff_getElem?.mp hx
        have hseq := hrest.seq_eq hi
        simp only [next, decide_eq_true_eq] at hseq hr hxn
        omega
      omega
    · exact ih hrest

end

/-- What a derived digest says: the digest before it and the body, from which the record and its
number can be told. `digest` are the digests that occur. -/
structure Binding (K : Chaining ρ δ β) (digest : δ → Prop) : Prop where
  digest_derive : ∀ d b, digest (K.derive d b)
  derive_inj : ∀ d d' b b', digest d → digest d' → K.derive d b = K.derive d' b' → d = d' ∧ b = b'
  seq_body : ∀ r r', K.body r = K.body r' → K.seq r = K.seq r'
  ext : ∀ r r', K.prev r = K.prev r' → K.body r = K.body r' → K.own r = K.own r' → r = r'

variable {digest : δ → Prop}

theorem Chained.digest_after (hK : K.Binding digest) (hhead : digest head.lastHash)
    (h : K.Chained head records) : digest (K.after head records).lastHash := by
  induction records generalizing head with
  | nil => exact hhead
  | cons r records ih =>
    obtain ⟨hlink, hrest⟩ := h
    refine ih ?_ hrest
    simp only [next, ← hlink.own_eq]
    exact hK.digest_derive _ _

variable {x : ρ}

theorem Chained.last (h : K.Chained head (xs ++ [x])) :
    K.Chained head xs ∧ K.Linked (K.after head xs) x := by
  obtain ⟨hxs, hlast⟩ := chained_append.mp h
  exact ⟨hxs, chained_singleton.mp hlast⟩

section
variable (hK : K.Binding digest) (hhead : digest head.lastHash) {y : ρ}
    (hx : K.Chained head (xs ++ [x])) (hy : K.Chained head (ys ++ [y])) (hown : K.own x = K.own y)
include hK hhead hx hy hown

theorem Chained.last_eq : x = y ∧ xs.length = ys.length := by
  obtain ⟨hxs, hlx⟩ := hx.last
  obtain ⟨hys, hly⟩ := hy.last
  have hderive : K.derive (K.prev x) (K.body x) = K.derive (K.prev y) (K.body y) := by
    rw [hlx.own_eq, hly.own_eq, hown]
  have hdx : digest (K.prev x) := by
    rw [hlx.prev_eq]
    exact hxs.digest_after hK hhead
  have hdy : digest (K.prev y) := by
    rw [hly.prev_eq]
    exact hys.digest_after hK hhead
  obtain ⟨hprev, hbody⟩ := hK.derive_inj _ _ _ _ hdx hdy hderive
  refine ⟨hK.ext x y hprev hbody hown, ?_⟩
  have hseqx := hlx.seq_eq
  have hseqy := hly.seq_eq
  have hlenx := hxs.lastSeq_after
  have hleny := hys.lastSeq_after
  have hsame := hK.seq_body x y hbody
  omega

theorem Chained.pinned : xs ++ [x] = ys ++ [y] := by
  -- backwards: one digest, one record, so one digest before it
  induction xs using List.reverseRecOn generalizing x ys y with
  | nil =>
    obtain ⟨rfl, hlen⟩ := Chained.last_eq hK hhead hx hy hown
    rw [List.eq_nil_of_length_eq_zero hlen.symm]
  | append_singleton xs x' ih =>
    obtain ⟨rfl, hlen⟩ := Chained.last_eq hK hhead hx hy hown
    obtain ⟨hxs, hlx⟩ := hx.last
    obtain ⟨hys, hly⟩ := hy.last
    rcases List.eq_nil_or_concat ys with rfl | ⟨ys', y', rfl⟩
    · simp at hlen
    · simp only [List.concat_eq_append] at hys hly ⊢
      have hlast : K.own x' = K.own y' := by
        have hpx := hlx.prev_eq
        have hpy := hly.prev_eq
        rw [after_append] at hpx hpy
        simp only [after_cons, after_nil, next] at hpx hpy
        rw [← hpx, ← hpy]
      rw [ih hxs hys hlast]

end

/-- The same by places: the records that show one digest stand at one place, and before it the
chains agree. -/
theorem Chained.take_eq (hK : K.Binding digest) (hhead : digest head.lastHash)
    (hxs : K.Chained head xs) (hys : K.Chained head ys) {i j : Nat} {y : ρ} (hx : xs[i]? = some x)
    (hy : ys[j]? = some y) (hown : K.own x = K.own y) : xs.take (i + 1) = ys.take (j + 1) := by
  have hfront : ∀ {zs : List ρ} {k : Nat} {z : ρ}, K.Chained head zs → zs[k]? = some z →
      K.Chained head (zs.take k ++ [z]) ∧ zs.take (k + 1) = zs.take k ++ [z] := by
    intro zs k z hzs hz
    have htake : zs.take (k + 1) = zs.take k ++ [z] := by
      rw [List.take_add_one, hz]
      rfl
    refine ⟨?_, htake⟩
    rw [← htake]
    rw [← List.take_append_drop (k + 1) zs] at hzs
    exact (chained_append.mp hzs).1
  obtain ⟨hcx, htx⟩ := hfront hxs hx
  obtain ⟨hcy, hty⟩ := hfront hys hy
  rw [htx, hty]
  exact Chained.pinned hK hhead hcx hcy hown

end Chaining
end Meho.Lib
