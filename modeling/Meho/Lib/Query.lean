import Mathlib.Data.List.Induction
import Mathlib.Data.List.Sort
import Mathlib.Data.Prod.Lex

/- Rows of a table as a query returns them.

`orderBy` is ORDER BY on a key: rows of equal keys stay in their order. A filter
before it or after it gives the same rows (`filter_orderBy`), and what comes out does not
depend on the order that the rows came in, if the keys tell them apart
(`orderBy_perm`). A list that a key puts in strict order is determined by its rows
(`eq_of_strictly`). `groupBy` gathers rows by a key, the groups in the order of their
first row; its groups are the filters of the rows (`mem_groupBy`), one for each key. -/
namespace Meho.Lib

/-! ## ORDER BY -/

section Order
variable {ρ κ : Type} [LinearOrder κ] (key : ρ → κ)

def orderBy (rows : List ρ) : List ρ := rows.insertionSort fun a b => key a ≤ key b

instance orderBy_total : Std.Total (fun a b : ρ => key a ≤ key b) := ⟨fun a b => le_total (key a) (key b)⟩

instance orderBy_trans : IsTrans ρ (fun a b => key a ≤ key b) := ⟨fun _ _ _ => le_trans⟩

theorem perm_orderBy (rows : List ρ) : (orderBy key rows).Perm rows := List.perm_insertionSort _ rows

variable {rows : List ρ}

@[simp] theorem mem_orderBy {r : ρ} : r ∈ orderBy key rows ↔ r ∈ rows :=
  (perm_orderBy key rows).mem_iff

@[simp] theorem orderBy_nil : orderBy key [] = [] := rfl

theorem orderBy_pairwise (rows : List ρ) :
    (orderBy key rows).Pairwise fun a b => key a ≤ key b := List.pairwise_insertionSort _ rows

variable {key}

theorem orderedInsert_first {a : ρ} (h : ∀ b ∈ rows, key a ≤ key b) :
    rows.orderedInsert (fun a b => key a ≤ key b) a = a :: rows := by
  cases rows with
  | nil => rfl
  | cons b rows => rw [List.orderedInsert_cons, if_pos (h b List.mem_cons_self)]

theorem filter_orderedInsert (p : ρ → Bool) (a : ρ) (h : rows.Pairwise fun a b => key a ≤ key b) :
    (rows.orderedInsert (fun a b => key a ≤ key b) a).filter p =
      if p a then (rows.filter p).orderedInsert (fun a b => key a ≤ key b) a
      else rows.filter p := by
  induction rows with
  | nil => by_cases hp : p a = true <;> simp [hp]
  | cons b rows ih =>
    obtain ⟨hb, hrows⟩ := List.pairwise_cons.mp h
    by_cases hab : key a ≤ key b
    · have hall : ∀ c ∈ (b :: rows).filter p, key a ≤ key c := by
        intro c hc
        obtain rfl | hc := List.mem_cons.mp (List.mem_filter.mp hc).1
        · exact hab
        · exact le_trans hab (hb c hc)
      rw [List.orderedInsert_cons, if_pos hab, orderedInsert_first hall, List.filter_cons]
    · rw [List.orderedInsert_cons, if_neg hab, List.filter_cons, ih hrows, List.filter_cons]
      by_cases hp : p a = true
      · by_cases hpb : p b = true
        · simp only [hp, hpb, if_true]
          rw [List.orderedInsert_cons, if_neg hab]
        · simp only [hp, hpb, if_true, Bool.false_eq_true, if_false]
      · simp only [hp, if_false, Bool.false_eq_true]

/-- A filter passes through the order. -/
theorem filter_orderBy (p : ρ → Bool) (rows : List ρ) :
    (orderBy key rows).filter p = orderBy key (rows.filter p) := by
  induction rows with
  | nil => rfl
  | cons a rows ih =>
    show ((orderBy key rows).orderedInsert (fun a b => key a ≤ key b) a).filter p = _
    rw [filter_orderedInsert p a (orderBy_pairwise key rows), ih, List.filter_cons]
    split <;> rfl

/-- Rows in strict order of a key are determined by which they are. -/
theorem eq_of_strictly {xs ys : List ρ} (hx : xs.Pairwise fun a b => key a < key b)
    (hy : ys.Pairwise fun a b => key a < key b) (h : ∀ r, r ∈ xs ↔ r ∈ ys) : xs = ys := by
  have : Std.Irrefl (fun a b : ρ => key a < key b) := ⟨fun a => lt_irrefl (key a)⟩
  have : Std.Antisymm (fun a b : ρ => key a < key b) :=
    ⟨fun a b hab hba => absurd hab (lt_asymm hba)⟩
  exact List.Pairwise.eq_of_mem_iff hx hy h

theorem orderBy_strictly (h : (rows.map key).Nodup) :
    (orderBy key rows).Pairwise fun a b => key a < key b := by
  have hnodup : ((orderBy key rows).map key).Nodup :=
    ((perm_orderBy key rows).map key).nodup_iff.mpr h
  have hne : (orderBy key rows).Pairwise fun a b => key a ≠ key b := List.pairwise_map.mp hnodup
  exact (orderBy_pairwise key rows).imp₂ (fun _ _ hle hneq => lt_of_le_of_ne hle hneq) hne

/-- The order that the rows come in does not matter if the key tells them apart. -/
theorem orderBy_perm {xs ys : List ρ} (h : xs.Perm ys) (hkey : (xs.map key).Nodup) :
    orderBy key xs = orderBy key ys := by
  refine eq_of_strictly (orderBy_strictly hkey) (orderBy_strictly ?_) ?_
  · exact (h.map key).nodup_iff.mp hkey
  · intro r
    rw [mem_orderBy, mem_orderBy, h.mem_iff]

end Order

/-! ## DISTINCT ON -/

section Distinct
variable {ρ ι : Type} [DecidableEq ι] (f : ρ → ι)

/-- The first row of each value. -/
def distinctOn : List ρ → List ρ
  | [] => []
  | r :: rows => r :: (distinctOn rows).filter fun x => f x ≠ f r

variable {f}

variable {rows : List ρ}

theorem mem_of_mem_distinctOn {r : ρ} (h : r ∈ distinctOn f rows) : r ∈ rows := by
  induction rows with
  | nil => cases h
  | cons x rows ih =>
    obtain rfl | h := List.mem_cons.mp h
    · exact List.mem_cons_self
    · exact List.mem_cons_of_mem _ (ih (List.mem_filter.mp h).1)

theorem exists_mem_distinctOn {r : ρ} (h : r ∈ rows) : ∃ x ∈ distinctOn f rows, f x = f r := by
  induction rows with
  | nil => cases h
  | cons y rows ih =>
    by_cases heq : f r = f y
    · exact ⟨y, List.mem_cons_self, heq.symm⟩
    · obtain rfl | h := List.mem_cons.mp h
      · exact absurd rfl heq
      · obtain ⟨x, hx, hfx⟩ := ih h
        refine ⟨x, List.mem_cons_of_mem _ (List.mem_filter.mpr ⟨hx, ?_⟩), hfx⟩
        rw [hfx]
        exact decide_eq_true heq

theorem distinctOn_nodup (rows : List ρ) : ((distinctOn f rows).map f).Nodup := by
  induction rows with
  | nil => exact List.nodup_nil
  | cons x rows ih =>
    rw [distinctOn, List.map_cons, List.nodup_cons]
    refine ⟨?_, (List.filter_sublist.map f).nodup ih⟩
    rw [List.mem_map]
    rintro ⟨y, hy, heq⟩
    exact of_decide_eq_true (List.mem_filter.mp hy).2 heq

theorem le_of_mem_distinctOn {κ : Type} [LinearOrder κ] {key : ρ → κ} {r x : ρ}
    (hr : r ∈ distinctOn f (orderBy key rows)) (hx : x ∈ rows) (heq : f x = f r) :
    key r ≤ key x := by
  have hx := (mem_orderBy key).mpr hx
  have horder := orderBy_pairwise key rows
  generalize orderBy key rows = ordered at hr hx horder
  induction ordered with
  | nil => cases hx
  | cons y ordered ih =>
    obtain ⟨hfirst, horder⟩ := List.pairwise_cons.mp horder
    obtain rfl | hr := List.mem_cons.mp hr
    · obtain rfl | hx := List.mem_cons.mp hx
      · exact le_refl _
      · exact hfirst x hx
    · obtain ⟨hr, hne⟩ := List.mem_filter.mp hr
      obtain rfl | hx := List.mem_cons.mp hx
      · exact absurd heq.symm (of_decide_eq_true hne)
      · exact ih hr hx horder

end Distinct

/-! ## Groups -/

section Groups
variable {ρ κ : Type} [DecidableEq κ] (key : ρ → κ)

/-- One more row: to its group, or a new group at the end. -/
def addToGroup (k : κ) (r : ρ) : List (κ × List ρ) → List (κ × List ρ)
  | [] => [(k, [r])]
  | g :: groups => if g.1 = k then (g.1, g.2 ++ [r]) :: groups else g :: addToGroup k r groups

/-- The rows by key, in the order of the keys' first rows. -/
def groupBy (rows : List ρ) : List (κ × List ρ) :=
  rows.foldl (fun groups r => addToGroup (key r) r groups) []

theorem groupBy_snoc (rows : List ρ) (r : ρ) :
    groupBy key (rows ++ [r]) = addToGroup (key r) r (groupBy key rows) := by
  rw [groupBy, List.foldl_append]
  rfl

variable {key}

theorem keys_addToGroup (k : κ) (r : ρ) (groups : List (κ × List ρ)) :
    (addToGroup k r groups).map Prod.fst =
      if k ∈ groups.map Prod.fst then groups.map Prod.fst else groups.map Prod.fst ++ [k] := by
  induction groups with
  | nil => rfl
  | cons g groups ih =>
    by_cases hk : g.1 = k
    · simp [addToGroup, hk]
    · have hk' : k ≠ g.1 := fun h => hk h.symm
      simp only [addToGroup, hk, if_false, List.map_cons, ih, List.mem_cons, hk', false_or]
      split <;> rfl

/-- A group after one more row: the row joined it, or it is as it was. -/
theorem mem_addToGroup {k : κ} {r : ρ} {groups : List (κ × List ρ)}
    (hnodup : (groups.map Prod.fst).Nodup) {g : κ × List ρ} (h : g ∈ addToGroup k r groups) :
    (g.1 = k ∧ ∃ rs, g.2 = rs ++ [r] ∧ ((k, rs) ∈ groups ∨ k ∉ groups.map Prod.fst ∧ rs = [])) ∨
      (g.1 ≠ k ∧ g ∈ groups) := by
  induction groups with
  | nil =>
    obtain rfl := List.mem_singleton.mp h
    exact .inl ⟨rfl, [], rfl, .inr ⟨List.not_mem_nil, rfl⟩⟩
  | cons g' groups ih =>
    obtain ⟨hnew, hrest⟩ := List.nodup_cons.mp hnodup
    by_cases hk : g'.1 = k
    · simp only [addToGroup, hk, if_true] at h
      obtain rfl | h := List.mem_cons.mp h
      · exact .inl ⟨rfl, g'.2, rfl, .inl (by rw [← hk]; exact List.mem_cons_self)⟩
      · refine .inr ⟨fun heq => hnew ?_, List.mem_cons_of_mem _ h⟩
        rw [hk, ← heq]
        exact List.mem_map_of_mem h
    · simp only [addToGroup, hk, if_false] at h
      obtain rfl | h := List.mem_cons.mp h
      · exact .inr ⟨hk, List.mem_cons_self⟩
      · obtain ⟨heq, rs, hrs, hold⟩ | ⟨hne, hmem⟩ := ih hrest h
        · refine .inl ⟨heq, rs, hrs, ?_⟩
          obtain hmem | ⟨hnone, hnil⟩ := hold
          · exact .inl (List.mem_cons_of_mem _ hmem)
          · refine .inr ⟨fun hmem => ?_, hnil⟩
            obtain hhead | htail := List.mem_cons.mp hmem
            · exact hk hhead.symm
            · exact hnone htail
        · exact .inr ⟨hne, List.mem_cons_of_mem _ hmem⟩

/-- What `groupBy` returns: one group for each key, each the rows of its key. -/
theorem groupBy_spec (rows : List ρ) :
    ((groupBy key rows).map Prod.fst).Nodup ∧
      (∀ k, k ∈ (groupBy key rows).map Prod.fst ↔ k ∈ rows.map key) ∧
      ∀ g ∈ groupBy key rows, g.2 = rows.filter fun r => key r = g.1 := by
  induction rows using List.reverseRecOn with
  | nil => exact ⟨List.nodup_nil, fun _ => Iff.rfl, fun g hg => by cases hg⟩
  | append_singleton rows r ih =>
    obtain ⟨hnodup, hkeys, hrows⟩ := ih
    rw [groupBy_snoc]
    refine ⟨?_, ?_, ?_⟩
    · rw [keys_addToGroup]
      split
      · exact hnodup
      next hnew =>
        rw [List.nodup_append_comm]
        exact List.nodup_cons.mpr ⟨hnew, hnodup⟩
    · intro k
      rw [keys_addToGroup, List.map_append, List.mem_append]
      split
      next hold =>
        rw [hkeys] at hold ⊢
        refine ⟨.inl, fun h => h.elim id fun h => ?_⟩
        rw [List.mem_singleton.mp h]
        exact hold
      next hnew =>
        rw [List.mem_append, hkeys]
        rfl
    · intro g hg
      rw [List.filter_append]
      -- the group that the last row joins, or one that it leaves alone
      obtain ⟨heq, rs, hrs, hold⟩ | ⟨hne, hmem⟩ := mem_addToGroup hnodup hg
      · have hr : [r].filter (fun r => key r = g.1) = [r] := by simp [heq]
        rw [hr, hrs]
        congr 1
        obtain hmem | ⟨hnone, rfl⟩ := hold
        · rw [heq]
          exact hrows _ hmem
        · rw [hkeys] at hnone
          refine (List.filter_eq_nil_iff.mpr fun x hx hkey => hnone ?_).symm
          rw [← heq, ← decide_eq_true_eq.mp hkey]
          exact List.mem_map_of_mem hx
      · have hr : [r].filter (fun r => key r = g.1) = [] := by
          simpa using fun heq => hne heq.symm
        rw [hr, List.append_nil]
        exact hrows g hmem

variable (key) in
theorem groupBy_nodup (rows : List ρ) : ((groupBy key rows).map Prod.fst).Nodup :=
  (groupBy_spec rows).1

theorem mem_keys_groupBy {rows : List ρ} {k : κ} :
    k ∈ (groupBy key rows).map Prod.fst ↔ ∃ r ∈ rows, key r = k :=
  ((groupBy_spec rows).2.1 k).trans List.mem_map

theorem mem_groupBy {rows : List ρ} {g : κ × List ρ} (h : g ∈ groupBy key rows) :
    g.2 = rows.filter fun r => key r = g.1 := (groupBy_spec rows).2.2 g h

end Groups

end Meho.Lib
