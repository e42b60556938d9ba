import Mathlib.Order.WellFounded
import Meho.Lib.Query

/- Keyset paging over rows that a key puts in order.

A page holds the first rows beyond a cursor, the key of the last row of the page
before. The rows may change from page to page. `mergeTake` cuts a page out of two sides
that are each in order, and it is enough to fetch of each side what the page could hold
(`mergeTake_take`).

`walk` follows the tokens of the answers, where a token names a key.

Results: paging ends if no key has an endless rise above it (`paging_ends`); what it
returns is in strict order (`paged_strictly`), and a key that stands in the rows of
every page is returned (`paged_complete`). -/
namespace Meho.Lib

section Keyset
variable {ρ κ : Type} [LinearOrder κ] (key : ρ → κ)

/-! ## Pages -/

/-- The rows beyond a cursor. -/
def beyond (c : Option κ) (rows : List ρ) : List ρ := rows.filter fun r => c.all (· < key r)

def page (limit : Nat) (c : Option κ) (rows : List ρ) : List ρ :=
  (orderBy key (beyond key c rows)).take limit

/-- The cursor of the next page, where there are rows past this one. -/
def next (limit : Nat) (c : Option κ) (rows : List ρ) : Option κ :=
  if limit < (beyond key c rows).length then (page key limit c rows).getLast?.map key else none

variable {key} {limit : Nat} {c : Option κ} {rows : List ρ}

theorem mem_beyond {r : ρ} : r ∈ beyond key c rows ↔ r ∈ rows ∧ ∀ x ∈ c, x < key r := by
  rw [beyond, List.mem_filter]
  cases c <;> simp

theorem mem_of_mem_page {r : ρ} (h : r ∈ page key limit c rows) :
    r ∈ rows ∧ ∀ x ∈ c, x < key r :=
  mem_beyond.mp ((mem_orderBy key).mp (List.mem_of_mem_take h))

theorem beyond_nodup (hkeys : (rows.map key).Nodup) : ((beyond key c rows).map key).Nodup :=
  (List.filter_sublist.map key).nodup hkeys

theorem page_strictly (hkeys : (rows.map key).Nodup) :
    (page key limit c rows).Pairwise fun a b => key a < key b :=
  (orderBy_strictly (beyond_nodup hkeys)).sublist (List.take_sublist _ _)

/-- Without a next page this one holds all the rows that were left. -/
theorem mem_page_of_next_none (hlimit : 0 < limit) (h : next key limit c rows = none) {r : ρ}
    (hr : r ∈ beyond key c rows) : r ∈ page key limit c rows := by
  have hall : (orderBy key (beyond key c rows)).length ≤ limit := by
    rw [(perm_orderBy key _).length_eq]
    by_contra hmore
    rw [next, if_pos (Nat.not_le.mp hmore), Option.map_eq_none_iff, List.getLast?_eq_none_iff] at h
    have hlength := congrArg List.length h
    rw [page, List.length_take, (perm_orderBy key _).length_eq] at hlength
    simp only [List.length_nil] at hlength
    omega
  rw [page, List.take_of_length_le hall]
  exact (mem_orderBy key).mpr hr

/-- The next cursor is the key of a row of the page. No row of the page lies beyond it, and
every row that was left lies on the page or beyond it. -/
theorem next_some {x : κ} (hkeys : (rows.map key).Nodup) (h : next key limit c rows = some x) :
    (∃ r ∈ page key limit c rows, key r = x) ∧ (∀ r ∈ page key limit c rows, key r ≤ x) ∧
      ∀ r ∈ beyond key c rows, r ∈ page key limit c rows ∨ x < key r := by
  unfold next at h
  split at h
  next hmore =>
    obtain ⟨last, hlast, rfl⟩ := Option.map_eq_some_iff.mp h
    have hstrict := orderBy_strictly (beyond_nodup (c := c) hkeys)
    have hpage : page key limit c rows = (page key limit c rows).dropLast ++ [last] :=
      (List.dropLast_append_getLast? _ hlast).symm
    have hall : orderBy key (beyond key c rows) =
        page key limit c rows ++ (orderBy key (beyond key c rows)).drop limit :=
      (List.take_append_drop limit _).symm
    have hmem : last ∈ page key limit c rows := List.mem_of_getLast? hlast
    refine ⟨⟨last, hmem, rfl⟩, fun r hr => ?_, fun r hr => ?_⟩
    · have hpairs : (page key limit c rows).Pairwise fun a b => key a < key b :=
        page_strictly hkeys
      rw [hpage] at hr hpairs
      obtain hr | hr := List.mem_append.mp hr
      · exact le_of_lt ((List.pairwise_append.mp hpairs).2.2 r hr last (List.mem_singleton_self _))
      · rw [List.mem_singleton.mp hr]
    · have hr := (mem_orderBy key).mpr hr
      rw [hall] at hr hstrict
      obtain hr | hr := List.mem_append.mp hr
      · exact .inl hr
      · exact .inr ((List.pairwise_append.mp hstrict).2.2 last hmem r hr)
  next => cases h

/-! ## Runs of pages -/

variable (key) (limits : Nat → Nat) (rowsAt : Nat → List ρ)

/-- The cursor that page `i` is asked with, `none` when the run is over before it. -/
def cursors : Nat → Option (Option κ)
  | 0 => some none
  | i + 1 => (cursors i).bind fun c => (next key (limits i) c (rowsAt i)).map some

def pageAt (i : Nat) : List ρ :=
  match cursors key limits rowsAt i with
  | some c => page key (limits i) c (rowsAt i)
  | none => []

/-- What the first `n` pages return. -/
def paged (n : Nat) : List ρ := (List.range n).flatMap (pageAt key limits rowsAt)

variable {key limits rowsAt}

theorem paged_succ (n : Nat) : paged key limits rowsAt (n + 1) =
    paged key limits rowsAt n ++ pageAt key limits rowsAt n := by
  rw [paged, List.range_succ, List.flatMap_append, List.flatMap_singleton]
  rfl

theorem mem_paged {n : Nat} {r : ρ} :
    r ∈ paged key limits rowsAt n ↔ ∃ i < n, r ∈ pageAt key limits rowsAt i := by
  simp [paged]

/-- A row on a page was one of the rows of that moment. -/
theorem mem_of_mem_pageAt {i : Nat} {r : ρ} (h : r ∈ pageAt key limits rowsAt i) : r ∈ rowsAt i := by
  unfold pageAt at h
  split at h
  · exact (mem_of_mem_page h).1
  · cases h

theorem cursors_succ {i : Nat} {x : κ} (h : cursors key limits rowsAt (i + 1) = some (some x)) :
    ∃ c, cursors key limits rowsAt i = some c ∧ next key (limits i) c (rowsAt i) = some x := by
  obtain ⟨c, hc, hnext⟩ := Option.bind_eq_some_iff.mp h
  obtain ⟨y, hy, heq⟩ := Option.map_eq_some_iff.mp hnext
  obtain rfl := Option.some.inj heq
  exact ⟨c, hc, hy⟩

theorem cursors_succ_ne {i : Nat} : cursors key limits rowsAt (i + 1) ≠ some none := by
  intro h
  obtain ⟨c, -, hnext⟩ := Option.bind_eq_some_iff.mp h
  obtain ⟨y, -, heq⟩ := Option.map_eq_some_iff.mp hnext
  cases heq

/-- Every page before one that is asked was asked. -/
theorem cursors_ne_none {i n : Nat} (h : i ≤ n) (hlive : cursors key limits rowsAt n ≠ none) :
    cursors key limits rowsAt i ≠ none := by
  induction n, h using Nat.le_induction with
  | base => exact hlive
  | succ n _ ih =>
    refine ih fun hnone => hlive ?_
    rw [cursors, hnone]
    rfl

section Run
variable (hkeys : ∀ i, ((rowsAt i).map key).Nodup)

include hkeys

/-- Whatever was returned before a page lies at its cursor or before it. -/
theorem paged_le {n : Nat} {x : κ} (h : cursors key limits rowsAt n = some (some x)) :
    ∀ r ∈ paged key limits rowsAt n, key r ≤ x := by
  induction n generalizing x with
  | zero => cases h
  | succ n ih =>
    obtain ⟨c, hc, hnext⟩ := cursors_succ h
    obtain ⟨⟨last, hlast, rfl⟩, hle, -⟩ := next_some (hkeys n) hnext
    intro r hr
    rw [paged_succ, List.mem_append] at hr
    obtain hr | hr := hr
    · cases c with
      | none =>
        cases n with
        | zero => cases hr
        | succ n => exact absurd hc cursors_succ_ne
      | some y => exact le_of_lt (lt_of_le_of_lt (ih hc r hr) ((mem_of_mem_page hlast).2 y rfl))
    · unfold pageAt at hr
      rw [hc] at hr
      exact hle r hr

variable (limits) in
/-- The rows come in strict order. -/
theorem paged_strictly (n : Nat) :
    (paged key limits rowsAt n).Pairwise fun a b => key a < key b := by
  induction n with
  | zero => exact List.Pairwise.nil
  | succ n ih =>
    rw [paged_succ, List.pairwise_append]
    unfold pageAt
    split
    next c hc =>
      refine ⟨ih, page_strictly (hkeys n), fun a ha b hb => ?_⟩
      cases c with
      | none =>
        cases n with
        | zero => cases ha
        | succ n => exact absurd hc cursors_succ_ne
      | some x => exact lt_of_le_of_lt (paged_le hkeys hc a ha) ((mem_of_mem_page hb).2 x rfl)
    next => exact ⟨ih, List.Pairwise.nil, fun _ _ _ hb => by cases hb⟩

/-- A key that stands in the rows of every page is returned, or still to come. -/
theorem returned_or_beyond {k : κ} {n : Nat} {c : Option κ}
    (h : cursors key limits rowsAt n = some c) (hk : ∀ i < n, ∃ r ∈ rowsAt i, key r = k) :
    (∃ r ∈ paged key limits rowsAt n, key r = k) ∨ ∀ x ∈ c, x < k := by
  induction n generalizing c with
  | zero =>
    obtain rfl : none = c := Option.some.inj h
    exact .inr fun x hx => by cases hx
  | succ n ih =>
    cases c with
    | none => exact absurd h cursors_succ_ne
    | some x =>
      obtain ⟨c, hc, hnext⟩ := cursors_succ h
      obtain ⟨-, -, hsplit⟩ := next_some (hkeys n) hnext
      rw [paged_succ]
      obtain ⟨r, hr, hkey⟩ | hbeyond := ih hc fun i hi => hk i (Nat.lt_succ_of_lt hi)
      · exact .inl ⟨r, List.mem_append_left _ hr, hkey⟩
      · obtain ⟨r, hr, rfl⟩ := hk n (Nat.lt_succ_self n)
        obtain hpage | hlater := hsplit r (mem_beyond.mpr ⟨hr, hbeyond⟩)
        · refine .inl ⟨r, List.mem_append_right _ ?_, rfl⟩
          unfold pageAt
          rw [hc]
          exact hpage
        · exact .inr fun y hy => by rwa [← Option.some.inj hy]

/-- When the run is over, each such key was returned. -/
theorem paged_complete (hlimits : ∀ i, 0 < limits i) {n : Nat} {k : κ}
    (hlive : cursors key limits rowsAt n ≠ none) (hend : cursors key limits rowsAt (n + 1) = none)
    (hk : ∀ i ≤ n, ∃ r ∈ rowsAt i, key r = k) :
    ∃ r ∈ paged key limits rowsAt (n + 1), key r = k := by
  obtain ⟨c, hc⟩ := Option.ne_none_iff_exists'.mp hlive
  have hnone : next key (limits n) c (rowsAt n) = none := by
    rw [cursors, hc, Option.bind_some, Option.map_eq_none_iff] at hend
    exact hend
  rw [paged_succ]
  obtain ⟨r, hr, hkey⟩ | hbeyond := returned_or_beyond hkeys hc fun i hi => hk i (Nat.le_of_lt hi)
  · exact ⟨r, List.mem_append_left _ hr, hkey⟩
  · obtain ⟨r, hr, rfl⟩ := hk n (Nat.le_refl n)
    refine ⟨r, List.mem_append_right _ ?_, rfl⟩
    unfold pageAt
    rw [hc]
    exact mem_page_of_next_none (hlimits n) hnone (mem_beyond.mpr ⟨hr, hbeyond⟩)

/-- From every page on, the run comes to an end. -/
theorem paging_ends_from [WellFoundedGT κ] (x : κ) {i : Nat}
    (h : cursors key limits rowsAt i = some (some x)) :
    ∃ n, cursors key limits rowsAt n ≠ none ∧ cursors key limits rowsAt (n + 1) = none := by
  induction x using WellFoundedGT.induction generalizing i with
  | ind x ih =>
    cases hnext : cursors key limits rowsAt (i + 1) with
    | none => exact ⟨i, by rw [h]; exact Option.some_ne_none _, hnext⟩
    | some c =>
      cases c with
      | none => exact absurd hnext cursors_succ_ne
      | some y =>
        obtain ⟨c, hc, hy⟩ := cursors_succ hnext
        rw [h] at hc
        obtain rfl := Option.some.inj hc
        obtain ⟨⟨last, hlast, rfl⟩, -, -⟩ := next_some (hkeys i) hy
        exact ih _ ((mem_of_mem_page hlast).2 x rfl) hnext

variable (limits) in
theorem paging_ends [WellFoundedGT κ] :
    ∃ n, cursors key limits rowsAt n ≠ none ∧ cursors key limits rowsAt (n + 1) = none := by
  cases hnext : cursors key limits rowsAt 1 with
  | none => exact ⟨0, Option.some_ne_none _, hnext⟩
  | some c =>
    cases c with
    | none => exact absurd hnext cursors_succ_ne
    | some x => exact paging_ends_from hkeys x hnext

/-- A row of a later page comes after a row of the first one. -/
theorem first_before {i : Nat} {r : ρ} (hr : r ∈ pageAt key limits rowsAt i)
    (hi : i ≠ 0) :
    ∃ a ∈ pageAt key limits rowsAt 0, key a < key r := by
  have hlive : cursors key limits rowsAt i ≠ none := fun hnone => by
    rw [pageAt, hnone] at hr
    cases hr
  obtain ⟨c, hc⟩ := Option.ne_none_iff_exists'.mp
    (cursors_ne_none (Nat.one_le_iff_ne_zero.mpr hi) hlive)
  cases c with
  | none => exact absurd hc cursors_succ_ne
  | some x =>
    obtain ⟨c, hc, hnext⟩ := cursors_succ hc
    obtain rfl : none = c := Option.some.inj hc
    obtain ⟨⟨a, ha, -⟩, -, -⟩ := next_some (hkeys 0) hnext
    have hstrict := paged_strictly limits hkeys (i + 1)
    rw [paged_succ] at hstrict
    exact ⟨a, ha, (List.pairwise_append.mp hstrict).2.2 a
      (mem_paged.mpr ⟨0, Nat.pos_of_ne_zero hi, ha⟩) r hr⟩

end Run

/-! ## Following the cursors -/

section Walk
variable {τ ε π : Type} (query : Nat → Option τ → Except ε π) (token : π → Option τ)

/-- Page `i` of a walk by tokens, `none` when the walk was over before it. -/
def walk : Nat → Option (Except ε π)
  | 0 => some (query 0 none)
  | i + 1 =>
    match walk i with
    | some (.ok result) => (token result).map fun t => query (i + 1) (some t)
    | _ => none

variable (names : τ → κ → Prop) (rows : π → List ρ)

variable (key limits rowsAt) in
/-- What the query answers to a token is the page beyond the key that the token names. -/
def Serves : Prop :=
  ∀ i t c, Option.Rel names t c → ∃ result, query i t = .ok result ∧
    rows result = page key (limits i) c (rowsAt i) ∧
    Option.Rel names (token result) (next key (limits i) c (rowsAt i))

variable {query token names rows}

section
variable (h : Serves key limits rowsAt query token names rows)
include h

theorem walk_cursors (i : Nat) :
    match cursors key limits rowsAt i with
    | none => walk query token i = none
    | some c => ∃ t, Option.Rel names t c ∧ walk query token i = some (query i t) := by
  induction i with
  | zero => exact ⟨none, .none, rfl⟩
  | succ i ih =>
    rw [cursors]
    cases hc : cursors key limits rowsAt i with
    | none =>
      rw [hc] at ih
      show walk query token (i + 1) = none
      rw [walk, ih]
    | some c =>
      rw [hc] at ih
      obtain ⟨t, hnames, hwalk⟩ := ih
      obtain ⟨result, hresult, -, hnext⟩ := h i t c hnames
      rw [Option.bind_some, walk, hwalk, hresult]
      show match (next key (limits i) c (rowsAt i)).map some with
        | none => (token result).map (fun t => query (i + 1) (some t)) = none
        | some c => ∃ t, Option.Rel names t c ∧
            (token result).map (fun t => query (i + 1) (some t)) = some (query (i + 1) t)
      generalize next key (limits i) c (rowsAt i) = following at hnext ⊢
      generalize token result = t at hnext ⊢
      cases hnext with
      | none => rfl
      | some hname => exact ⟨_, .some hname, rfl⟩

theorem walk_pages {i : Nat} (hlive : cursors key limits rowsAt i ≠ none) :
    ∃ result, walk query token i = some (.ok result) ∧
      rows result = pageAt key limits rowsAt i ∧
      (cursors key limits rowsAt (i + 1) = none → token result = none) := by
  have hwalk := walk_cursors h i
  obtain ⟨c, hc⟩ := Option.ne_none_iff_exists'.mp hlive
  rw [hc] at hwalk
  obtain ⟨t, hnames, hwalk⟩ := hwalk
  obtain ⟨result, hresult, hrows, hnext⟩ := h i t c hnames
  refine ⟨result, by rw [hwalk, hresult], by rw [hrows, pageAt, hc], fun hend => ?_⟩
  rw [cursors, hc, Option.bind_some, Option.map_eq_none_iff] at hend
  rw [hend] at hnext
  cases hnext' : token result with
  | none => rfl
  | some t => rw [hnext'] at hnext; cases hnext

theorem walk_ends [WellFoundedGT κ] (hkeys : ∀ i, ((rowsAt i).map key).Nodup) :
    ∃ (n : Nat) (pages : Nat → π), (∀ i ≤ n, walk query token i = some (.ok (pages i))) ∧
      token (pages n) = none ∧ (∀ i ≤ n, rows (pages i) = pageAt key limits rowsAt i) ∧
      cursors key limits rowsAt n ≠ none ∧ cursors key limits rowsAt (n + 1) = none := by
  obtain ⟨n, hlive, hend⟩ := paging_ends limits hkeys
  have : Nonempty π := ⟨(walk_pages h hlive).choose⟩
  have hpages := fun i (hi : i ≤ n) => walk_pages h (cursors_ne_none hi hlive)
  choose! pages hwalk hrows hlast using hpages
  exact ⟨n, pages, hwalk, hlast n (Nat.le_refl n) hend, hrows, hlive, hend⟩

end

end Walk

/-! ## Two sides -/

variable (key)

/-- The first rows of two sides, the smaller head first. -/
def mergeTake : List ρ → List ρ → Nat → List ρ
  | _, _, 0 => []
  | [], bs, k + 1 => bs.take (k + 1)
  | as, [], k + 1 => as.take (k + 1)
  | a :: as, b :: bs, k + 1 =>
    if key a ≤ key b then a :: mergeTake as (b :: bs) k else b :: mergeTake (a :: as) bs k

variable {key}

/-- Only what the result could hold is needed of each side. -/
theorem mergeTake_take {as bs : List ρ} {k m n : Nat} (hm : k ≤ m) (hn : k ≤ n) :
    mergeTake key (as.take m) (bs.take n) k = mergeTake key as bs k := by
  induction k generalizing as bs m n with
  | zero => simp [mergeTake]
  | succ k ih =>
    obtain ⟨m, rfl⟩ := Nat.exists_eq_add_of_le' hm
    obtain ⟨n, rfl⟩ := Nat.exists_eq_add_of_le' hn
    cases as with
    | nil =>
      rw [List.take_nil, mergeTake, mergeTake, List.take_take, Nat.min_eq_left hn]
    | cons a as =>
      cases bs with
      | nil =>
        rw [List.take_nil, ← Nat.add_assoc, List.take_succ_cons, mergeTake, mergeTake]
        · rw [← List.take_succ_cons, List.take_take, Nat.min_eq_left (Nat.add_assoc m k 1 ▸ hm)]
        all_goals exact List.cons_ne_nil _ _
      | cons b bs =>
        have hfirst : mergeTake key (as.take (m + k)) ((b :: bs).take (n + (k + 1))) k =
            mergeTake key as (b :: bs) k := ih (by omega) (by omega)
        have hsecond : mergeTake key ((a :: as).take (m + (k + 1))) (bs.take (n + k)) k =
            mergeTake key (a :: as) bs k := ih (by omega) (by omega)
        simp only [← Nat.add_assoc, List.take_succ_cons] at hfirst hsecond ⊢
        rw [mergeTake, mergeTake, hfirst, hsecond]

theorem orderBy_cons {a : ρ} {rows : List ρ} (h : ∀ b ∈ rows, key a ≤ key b) :
    orderBy key (a :: rows) = a :: orderBy key rows :=
  orderedInsert_first fun b hb => h b ((mem_orderBy key).mp hb)

theorem orderBy_of_strictly {rows : List ρ} (h : rows.Pairwise fun a b => key a < key b) :
    orderBy key rows = rows := by
  induction rows with
  | nil => rfl
  | cons a rows ih =>
    obtain ⟨ha, hrows⟩ := List.pairwise_cons.mp h
    rw [orderBy_cons fun b hb => le_of_lt (ha b hb), ih hrows]

/-- Merging two sides in order gives the rows of both in order. -/
theorem mergeTake_eq {as bs : List ρ} (ha : as.Pairwise fun a b => key a < key b)
    (hb : bs.Pairwise fun a b => key a < key b) (hkeys : ((as ++ bs).map key).Nodup) (k : Nat) :
    mergeTake key as bs k = (orderBy key (as ++ bs)).take k := by
  induction k generalizing as bs with
  | zero => simp [mergeTake]
  | succ k ih =>
    cases as with
    | nil => rw [mergeTake, List.nil_append, orderBy_of_strictly hb]
    | cons a as =>
      cases bs with
      | nil =>
        rw [mergeTake, List.append_nil, orderBy_of_strictly ha]
        exact List.cons_ne_nil _ _
      | cons b bs =>
        obtain ⟨hfirst, has⟩ := List.pairwise_cons.mp ha
        obtain ⟨hsecond, hbs⟩ := List.pairwise_cons.mp hb
        have hperm : (a :: as ++ b :: bs).Perm (b :: (a :: as ++ bs)) := List.perm_middle
        rw [mergeTake]
        split
        next hle =>
          -- the smaller head is the least of both lists
          have hall : ∀ x ∈ as ++ b :: bs, key a ≤ key x := by
            intro x hx
            obtain hx | hx := List.mem_append.mp hx
            · exact le_of_lt (hfirst x hx)
            · obtain rfl | hx := List.mem_cons.mp hx
              · exact hle
              · exact le_trans hle (le_of_lt (hsecond x hx))
          rw [List.cons_append, orderBy_cons hall, List.take_succ_cons]
          rw [ih has hb (List.nodup_cons.mp hkeys).2]
        next hle =>
          have hlt : key b < key a := not_le.mp hle
          have hall : ∀ x ∈ a :: as ++ bs, key b ≤ key x := by
            intro x hx
            obtain hx | hx := List.mem_append.mp hx
            · obtain rfl | hx := List.mem_cons.mp hx
              · exact le_of_lt hlt
              · exact le_of_lt (lt_trans hlt (hfirst x hx))
            · exact le_of_lt (hsecond x hx)
          have hnodup := ((hperm.map key).nodup_iff.mp hkeys)
          rw [orderBy_perm hperm hkeys, orderBy_cons hall, List.take_succ_cons]
          rw [ih ha hbs (List.nodup_cons.mp hnodup).2]

end Keyset

end Meho.Lib
