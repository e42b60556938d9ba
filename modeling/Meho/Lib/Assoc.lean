import Mathlib.Data.List.Nodup
import Mathlib.Data.List.Perm.Basic

/- Dictionaries as lists of their entries.

A dictionary keeps the place of a key's first assignment and the value of its last
(`assign`). What a comprehension over pairs builds is `ofPairs`. With distinct keys the
pairs are the entries (`ofPairs_eq`), and a lookup does not depend on the order that
they came in (`get_ofPairs_perm`). -/
namespace Meho.Lib.Assoc

variable {κ α : Type} [DecidableEq κ]

/-- `d[k] = v`. -/
def assign : List (κ × α) → κ → α → List (κ × α)
  | [], k, v => [(k, v)]
  | e :: d, k, v => if e.1 = k then (k, v) :: d else e :: assign d k v

/-- `d.get(k)`. -/
def get (d : List (κ × α)) (k : κ) : Option α := (d.find? (·.1 = k)).map (·.2)

/-- A dictionary comprehension. -/
def ofPairs (pairs : List (κ × α)) : List (κ × α) :=
  pairs.foldl (fun d e => assign d e.1 e.2) []

@[simp] theorem get_nil (k : κ) : get ([] : List (κ × α)) k = none := rfl

theorem get_cons (e : κ × α) (d : List (κ × α)) (k : κ) :
    get (e :: d) k = if e.1 = k then some e.2 else get d k := by
  by_cases h : e.1 = k <;> simp [get, h]

variable {d : List (κ × α)} {k : κ} {v : α}

theorem mem_of_get (h : get d k = some v) : (k, v) ∈ d := by
  obtain ⟨e, he, rfl⟩ := Option.map_eq_some_iff.mp h
  have hk : e.1 = k := by simpa using List.find?_some he
  exact hk ▸ List.mem_of_find?_eq_some he

theorem get_eq_none : get d k = none ↔ k ∉ d.map Prod.fst := by
  simp only [get, Option.map_eq_none_iff, List.find?_eq_none, List.mem_map, not_exists, not_and,
    decide_eq_true_eq]

theorem get_of_mem (hd : (d.map Prod.fst).Nodup) (h : (k, v) ∈ d) : get d k = some v := by
  obtain ⟨w, hw⟩ : ∃ w, get d k = some w := by
    rcases hg : get d k with _ | w
    · exact absurd (List.mem_map.mpr ⟨_, h, rfl⟩) (get_eq_none.mp hg)
    · exact ⟨w, rfl⟩
  have heq : (k, w) = (k, v) := List.inj_on_of_nodup_map hd (mem_of_get hw) h rfl
  rw [hw]
  exact congrArg (fun e => some e.2) heq

theorem get_append (d e : List (κ × α)) (k : κ) :
    get (d ++ e) k = (get d k).or (get e k) := by
  simp only [get, List.find?_append, Option.map_or]

theorem mem_assign {e : κ × α} (h : e ∈ assign d k v) : e = (k, v) ∨ e ∈ d := by
  induction d with
  | nil => exact .inl (by simpa [assign] using h)
  | cons x d ih =>
    by_cases hx : x.1 = k
    · rw [assign, if_pos hx] at h
      obtain rfl | h := List.mem_cons.mp h
      · exact .inl rfl
      · exact .inr (List.mem_cons_of_mem _ h)
    · rw [assign, if_neg hx] at h
      obtain rfl | h := List.mem_cons.mp h
      · exact .inr List.mem_cons_self
      · exact (ih h).imp_right (List.mem_cons_of_mem _)

theorem map_fst_assign :
    (assign d k v).map Prod.fst =
      if k ∈ d.map Prod.fst then d.map Prod.fst else d.map Prod.fst ++ [k] := by
  induction d with
  | nil => simp [assign]
  | cons x d ih =>
    by_cases hx : x.1 = k
    · simp [assign, hx]
    · have hx' : ¬ k = x.1 := fun h => hx h.symm
      rw [assign, if_neg hx, List.map_cons, ih, List.map_cons]
      by_cases hk : k ∈ d.map Prod.fst
      · rw [if_pos hk, if_pos (List.mem_cons_of_mem _ hk)]
      · rw [if_neg hk, if_neg (by simpa [hx'] using hk), List.cons_append]

theorem assign_of_not_mem (h : k ∉ d.map Prod.fst) : assign d k v = d ++ [(k, v)] := by
  induction d with
  | nil => rfl
  | cons x d ih =>
    rw [List.map_cons, List.mem_cons, not_or] at h
    rw [assign, if_neg (fun hx => h.1 hx.symm), ih h.2, List.cons_append]

theorem get_assign (d : List (κ × α)) (k k' : κ) (v : α) :
    get (assign d k v) k' = if k = k' then some v else get d k' := by
  induction d with
  | nil => simp [assign, get_cons]
  | cons x d ih =>
    by_cases hx : x.1 = k
    · simp only [assign, hx, if_true, get_cons]
      split <;> rfl
    · simp only [assign, hx, if_false, get_cons, ih]
      by_cases hk : k = k'
      · simp [← hk, hx]
      · simp [hk]

/-- What building on from `d` keeps: entries come from `d` or from the pairs. -/
theorem foldl_assign_spec (pairs d : List (κ × α)) (hd : (d.map Prod.fst).Nodup) :
    let r := pairs.foldl (fun d e => assign d e.1 e.2) d
    (r.map Prod.fst).Nodup ∧ (∀ e ∈ r, e ∈ d ∨ e ∈ pairs) ∧
      ∀ k, k ∈ r.map Prod.fst ↔ k ∈ d.map Prod.fst ∨ k ∈ pairs.map Prod.fst := by
  induction pairs generalizing d with
  | nil => exact ⟨hd, fun e he => .inl he, fun k => by simp⟩
  | cons p pairs ih =>
    have hkeys : (assign d p.1 p.2).map Prod.fst =
        if p.1 ∈ d.map Prod.fst then d.map Prod.fst else d.map Prod.fst ++ [p.1] := map_fst_assign
    have hnd : ((assign d p.1 p.2).map Prod.fst).Nodup := by
      rw [hkeys]
      split
      · exact hd
      · rename_i hp
        exact List.nodup_append.mpr ⟨hd, List.nodup_singleton _, by
          rintro a ha b hb rfl
          exact hp (List.mem_singleton.mp hb ▸ ha)⟩
    obtain ⟨h1, h2, h3⟩ := ih (assign d p.1 p.2) hnd
    refine ⟨h1, ?_, ?_⟩
    · intro e he
      rcases h2 e he with h | h
      · rcases mem_assign h with rfl | h
        · exact .inr List.mem_cons_self
        · exact .inl h
      · exact .inr (List.mem_cons_of_mem _ h)
    · intro k
      have hk : k ∈ (assign d p.1 p.2).map Prod.fst ↔ k ∈ d.map Prod.fst ∨ k = p.1 := by
        rw [hkeys]
        split
        · rename_i hp
          exact ⟨.inl, fun h => h.elim id (fun h => h ▸ hp)⟩
        · simp
      rw [List.foldl_cons, h3 k, hk, List.map_cons, List.mem_cons, or_assoc]

theorem ofPairs_nodup (pairs : List (κ × α)) : ((ofPairs pairs).map Prod.fst).Nodup :=
  (foldl_assign_spec pairs [] List.nodup_nil).1

variable {pairs : List (κ × α)}

theorem mem_of_mem_ofPairs {e : κ × α} (h : e ∈ ofPairs pairs) : e ∈ pairs :=
  ((foldl_assign_spec pairs [] List.nodup_nil).2.1 e h).resolve_left (List.not_mem_nil)

theorem mem_keys_ofPairs : k ∈ (ofPairs pairs).map Prod.fst ↔ k ∈ pairs.map Prod.fst := by
  simpa [ofPairs] using (foldl_assign_spec pairs [] List.nodup_nil).2.2 k

omit [DecidableEq κ] in
/-- A pass over the entries that keeps some under their keys. -/
theorem map_fst_filterMap_sublist {β : Type} (d : List (κ × α)) (f : κ × α → Option β) :
    ((d.filterMap fun e => (f e).map (e.1, ·)).map Prod.fst).Sublist (d.map Prod.fst) := by
  induction d with
  | nil => exact List.Sublist.slnil
  | cons e d ih =>
    rw [List.filterMap_cons]
    cases f e with
    | none => exact ih.cons _
    | some b => exact ih.cons_cons _

theorem ofPairs_eq (h : (pairs.map Prod.fst).Nodup) : ofPairs pairs = pairs := by
  have haux : ∀ (ps d : List (κ × α)), ((d ++ ps).map Prod.fst).Nodup →
      ps.foldl (fun d e => assign d e.1 e.2) d = d ++ ps := by
    intro ps
    induction ps with
    | nil => intro d _; simp
    | cons p ps ih =>
      intro d hd
      have hp : p.1 ∉ d.map Prod.fst := by
        rw [List.map_append, List.map_cons] at hd
        intro hmem
        exact (List.nodup_append.mp hd).2.2 _ hmem _ List.mem_cons_self rfl
      rw [List.foldl_cons, assign_of_not_mem hp, ih (d ++ [p])]
      · simp
      · simpa using hd
  simpa [ofPairs] using haux pairs [] (by simpa using h)

/-- With distinct keys, a lookup does not depend on the order of the pairs. -/
theorem get_ofPairs_perm {pairs' : List (κ × α)} (hp : pairs.Perm pairs')
    (h : (pairs.map Prod.fst).Nodup) (k : κ) : get (ofPairs pairs) k = get (ofPairs pairs') k := by
  have h' : (pairs'.map Prod.fst).Nodup := (hp.map Prod.fst).nodup_iff.mp h
  rw [ofPairs_eq h, ofPairs_eq h']
  rcases hg : get pairs k with _ | v
  · have hk : k ∉ pairs'.map Prod.fst :=
      fun hk => get_eq_none.mp hg ((hp.map Prod.fst).mem_iff.mpr hk)
    exact (get_eq_none.mpr hk).symm
  · exact (get_of_mem h' (hp.mem_iff.mp (mem_of_get hg))).symm

end Meho.Lib.Assoc
