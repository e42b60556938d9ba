import Mathlib.Data.List.Basic

/- Stretches of a text, given by where they start and stop.

`Ordered` spans stand from the left and none runs into the next. They cut a text into
`parts`, kept and covered ones in turn, which join to the text (`parts_text`) and whose
marks, letter by letter, say which places are covered (`parts_marks`): so replacing the
covered parts replaces exactly the covered letters. `window a b` is what of the spans falls
between two places. Walking spans and places together finds the same, since what ends
before a place stands in front and what starts behind one comes last (`walk_eq_window`). -/
namespace Meho.Lib.Spans

abbrev Span := Nat × Nat

/-- From the left, and none into the next one. -/
structure Ordered (spans : List Span) : Prop where
  le : ∀ s ∈ spans, s.1 ≤ s.2
  apart : spans.Pairwise fun s t => s.2 ≤ t.1

theorem Ordered.nil : Ordered [] := ⟨nofun, List.Pairwise.nil⟩

variable {spans : List Span}

theorem ordered_cons {s : Span} :
    Ordered (s :: spans) ↔ s.1 ≤ s.2 ∧ (∀ t ∈ spans, s.2 ≤ t.1) ∧ Ordered spans := by
  constructor
  · intro h
    obtain ⟨hfirst, hrest⟩ := List.pairwise_cons.mp h.apart
    exact ⟨h.le s List.mem_cons_self, hfirst, fun t ht => h.le t (List.mem_cons_of_mem _ ht), hrest⟩
  · intro ⟨hle, hfirst, hrest⟩
    refine ⟨fun t ht => ?_, List.pairwise_cons.mpr ⟨hfirst, hrest.apart⟩⟩
    cases ht with
    | head => exact hle
    | tail _ ht => exact hrest.le t ht

theorem Ordered.sublist {few : List Span} (h : Ordered spans) (hsub : few.Sublist spans) :
    Ordered few :=
  ⟨fun s hs => h.le s (hsub.subset hs), h.apart.sublist hsub⟩

/-- Some span covers place `k`. -/
def covers (spans : List Span) (k : Nat) : Bool := spans.any fun s => s.1 ≤ k && k < s.2

theorem covers_iff {k : Nat} : covers spans k = true ↔ ∃ s ∈ spans, s.1 ≤ k ∧ k < s.2 := by
  simp [covers]

/-! ## Parts -/

section Parts
variable {α : Type} (text : List α)

/-- `text[a:b]`. -/
def between (a b : Nat) : List α := (text.drop a).take (b - a)

/-- The parts from `cursor` on, the covered ones marked. -/
def parts : Nat → List Span → List (Bool × List α)
  | cursor, [] => [(false, text.drop cursor)]
  | cursor, s :: spans =>
    (false, between text cursor s.1) :: (true, between text s.1 s.2) :: parts s.2 spans

variable {text}

theorem between_append_drop {a b : Nat} (h : a ≤ b) :
    between text a b ++ text.drop b = text.drop a := by
  have hb : text.drop b = (text.drop a).drop (b - a) := by
    rw [List.drop_drop]
    congr 1
    omega
  rw [between, hb, List.take_append_drop]

theorem length_between {a b : Nat} (hb : b ≤ text.length) :
    (between text a b).length = b - a := by
  rw [between, List.length_take, List.length_drop]
  omega

/-- The parts join to the text. -/
theorem parts_text {cursor : Nat} {spans : List Span} (h : Ordered spans)
    (hcursor : ∀ s ∈ spans, cursor ≤ s.1) :
    (parts text cursor spans).flatMap Prod.snd = text.drop cursor := by
  induction spans generalizing cursor with
  | nil => simp [parts]
  | cons s spans ih =>
    obtain ⟨hle, hfirst, hrest⟩ := ordered_cons.mp h
    rw [parts, List.flatMap_cons, List.flatMap_cons, ih hrest hfirst,
      between_append_drop hle, between_append_drop (hcursor s List.mem_cons_self)]

def marks (ps : List (Bool × List α)) : List Bool :=
  ps.flatMap fun p => List.replicate p.2.length p.1

theorem map_range'_const {f : Nat → Bool} {b : Bool} {start n : Nat}
    (h : ∀ k, start ≤ k → k < start + n → f k = b) :
    (List.range' start n).map f = List.replicate n b := by
  refine List.eq_replicate_iff.mpr ⟨by simp, fun x hx => ?_⟩
  obtain ⟨k, hk, rfl⟩ := List.mem_map.mp hx
  obtain ⟨hlow, hup⟩ := List.mem_range'_1.mp hk
  exact h k hlow hup

/-- The marks of the parts, letter by letter, say which places are covered. -/
theorem parts_marks {cursor : Nat} {spans : List Span} (h : Ordered spans)
    (hcursor : ∀ s ∈ spans, cursor ≤ s.1) (hinside : ∀ s ∈ spans, s.2 ≤ text.length) :
    marks (parts text cursor spans) =
      (List.range' cursor (text.length - cursor)).map (covers spans) := by
  induction spans generalizing cursor with
  | nil =>
    have hnone : ∀ k, cursor ≤ k → k < cursor + (text.length - cursor) → covers [] k = false :=
      fun _ _ _ => rfl
    rw [map_range'_const hnone]
    simp [marks, parts]
  | cons s spans ih =>
    obtain ⟨hle, hfirst, hrest⟩ := ordered_cons.mp h
    have hstart := hcursor s List.mem_cons_self
    have hstop := hinside s List.mem_cons_self
    have hbehind : ∀ k, s.2 ≤ k → covers (s :: spans) k = covers spans k := by
      intro k hk
      simp only [covers, List.any_cons, Nat.not_lt_of_le hk, decide_false, Bool.and_false,
        Bool.false_or]
    have hbefore : ∀ k, k < s.1 → covers (s :: spans) k = false := by
      intro k hk
      refine Bool.eq_false_iff.mpr fun hcov => ?_
      obtain ⟨t, ht, hlow, -⟩ := covers_iff.mp hcov
      cases ht with
      | head => omega
      | tail _ ht =>
        have := hfirst t ht
        omega
    have hwithin : ∀ k, s.1 ≤ k → k < s.2 → covers (s :: spans) k = true := fun k hlow hup =>
      covers_iff.mpr ⟨s, List.mem_cons_self, hlow, hup⟩
    -- the text in three parts: up to the first span, the span, and the rest
    have hsplit : List.range' cursor (text.length - cursor) =
        List.range' cursor (s.1 - cursor) ++
          (List.range' s.1 (s.2 - s.1) ++ List.range' s.2 (text.length - s.2)) := by
      have hsecond := @List.range'_append_1 s.1 (s.2 - s.1) (text.length - s.2)
      have hall := @List.range'_append_1 cursor (s.1 - cursor) (text.length - s.1)
      rw [Nat.add_sub_cancel' hle, show s.2 - s.1 + (text.length - s.2) = text.length - s.1 by omega]
        at hsecond
      rw [Nat.add_sub_cancel' hstart,
        show s.1 - cursor + (text.length - s.1) = text.length - cursor by omega] at hall
      rw [hsecond, hall]
    have htail : (List.range' s.2 (text.length - s.2)).map (covers (s :: spans)) =
        marks (parts text s.2 spans) := by
      rw [ih hrest hfirst fun t ht => hinside t (List.mem_cons_of_mem _ ht)]
      exact List.map_congr_left fun k hk => hbehind k (List.mem_range'_1.mp hk).1
    rw [hsplit, List.map_append, List.map_append, htail,
      map_range'_const fun k _ hk => hbefore k (by omega),
      map_range'_const fun k hlow hk => hwithin k hlow (by omega)]
    simp only [marks, parts, List.flatMap_cons]
    rw [length_between (Nat.le_trans hle hstop), length_between hstop]

variable (text) in
/-- The text with the covered parts replaced. -/
def filled (put : List α → List α) (cursor : Nat) (spans : List Span) : List α :=
  (parts text cursor spans).flatMap fun p => if p.1 then put p.2 else p.2

theorem filled_nil (put : List α → List α) (cursor : Nat) :
    filled text put cursor [] = text.drop cursor := by simp [filled, parts]

theorem filled_cons (put : List α → List α) (cursor : Nat) (s : Span) (spans : List Span) :
    filled text put cursor (s :: spans) =
      between text cursor s.1 ++ put (between text s.1 s.2) ++
        filled text put s.2 spans := by simp [filled, parts]

end Parts

/-! ## Windows -/

/-- The span has a part between `a` and `b`; where these are one place, it runs over it. -/
def meets (a b : Nat) (s : Span) : Bool := s.1 < s.2 && (s.1 < b && a < s.2)

/-- The part of a span between `a` and `b`, counted from `a`. -/
def clip (a b : Nat) (s : Span) : Span := (max s.1 a - a, min s.2 b - a)

def window (a b : Nat) (spans : List Span) : List Span := (spans.filter (meets a b)).map (clip a b)

variable {a b : Nat}

theorem meets_iff {s : Span} : meets a b s = true ↔ s.1 < s.2 ∧ s.1 < b ∧ a < s.2 := by
  simp [meets]

/-- Between two different places, what has a part there covers one of them. -/
theorem any_meets_iff (hab : a < b) :
    spans.any (meets a b) = true ↔ ∃ k, a ≤ k ∧ k < b ∧ covers spans k = true := by
  rw [List.any_eq_true]
  constructor
  · intro ⟨s, hs, hmeets⟩
    obtain ⟨hlt, hb, ha⟩ := meets_iff.mp hmeets
    exact ⟨max s.1 a, by omega, by omega, covers_iff.mpr ⟨s, hs, by omega, by omega⟩⟩
  · intro ⟨k, hlow, hup, hcov⟩
    obtain ⟨s, hs, hstart, hstop⟩ := covers_iff.mp hcov
    exact ⟨s, hs, meets_iff.mpr ⟨by omega, by omega, by omega⟩⟩

theorem window_inside (hab : a ≤ b) : ∀ s ∈ window a b spans, s.1 ≤ s.2 ∧ s.2 ≤ b - a := by
  intro s hs
  obtain ⟨t, ht, rfl⟩ := List.mem_map.mp hs
  obtain ⟨hlt, hb, ha⟩ := meets_iff.mp (List.mem_filter.mp ht).2
  show max t.1 a - a ≤ min t.2 b - a ∧ min t.2 b - a ≤ b - a
  omega

theorem window_ordered (hab : a ≤ b) (h : Ordered spans) : Ordered (window a b spans) := by
  refine ⟨fun s hs => (window_inside hab s hs).1, ?_⟩
  refine List.pairwise_map.mpr ?_
  refine (h.apart.sublist List.filter_sublist).imp ?_
  intro s t hst
  show min s.2 b - a ≤ max t.1 a - a
  omega

theorem covers_window {k : Nat} (hk : a + k < b) :
    covers (window a b spans) k = covers spans (a + k) := by
  refine Bool.eq_iff_iff.mpr ?_
  rw [covers_iff, covers_iff]
  constructor
  · intro ⟨s, hs, hlow, hup⟩
    obtain ⟨t, ht, rfl⟩ := List.mem_map.mp hs
    refine ⟨t, (List.mem_filter.mp ht).1, ?_⟩
    simp only [clip] at hlow hup
    omega
  · intro ⟨s, hs, hlow, hup⟩
    have hmeets : meets a b s = true := meets_iff.mpr (by omega)
    refine ⟨clip a b s, List.mem_map_of_mem (List.mem_filter.mpr ⟨hs, hmeets⟩), ?_⟩
    simp only [clip]
    omega

theorem window_point (h : Ordered spans) : window a a spans = [] ∨ window a a spans = [(0, 0)] := by
  have hmeets : ∀ s ∈ spans.filter (meets a a), s.1 < a ∧ a < s.2 := fun s hs =>
    (meets_iff.mp (List.mem_filter.mp hs).2).2
  have hapart := h.apart.sublist (List.filter_sublist (p := meets a a))
  rw [window]
  match hfilter : spans.filter (meets a a) with
  | [] => exact .inl rfl
  | [s] =>
    have := hmeets s (hfilter ▸ List.mem_cons_self)
    refine .inr ?_
    simp only [List.map_cons, List.map_nil, clip]
    congr 2 <;> omega
  | s :: t :: _ =>
    rw [hfilter] at hmeets hapart
    have hst := (List.pairwise_cons.mp hapart).1 t List.mem_cons_self
    have hs := hmeets s List.mem_cons_self
    have ht := hmeets t (List.mem_cons_of_mem _ List.mem_cons_self)
    omega

theorem dropWhile_eq_filter (h : Ordered spans) :
    spans.dropWhile (·.2 ≤ a) = spans.filter fun s => ! decide (s.2 ≤ a) := by
  induction spans with
  | nil => rfl
  | cons s spans ih =>
    obtain ⟨hle, hfirst, hrest⟩ := ordered_cons.mp h
    rw [List.dropWhile_cons, List.filter_cons]
    by_cases hs : s.2 ≤ a
    · simp only [hs, decide_true, if_true, Bool.not_true, Bool.false_eq_true, if_false]
      exact ih hrest
    · simp only [hs, decide_false, Bool.false_eq_true, if_false, Bool.not_false, if_true]
      rw [List.filter_eq_self.mpr]
      intro t ht
      have := hfirst t ht
      have := hrest.le t ht
      simp only [Bool.not_eq_true', decide_eq_false_iff_not]
      omega

theorem takeWhile_eq_filter (h : Ordered spans) :
    spans.takeWhile (·.1 < b) = spans.filter (·.1 < b) := by
  induction spans with
  | nil => rfl
  | cons s spans ih =>
    obtain ⟨hle, hfirst, hrest⟩ := ordered_cons.mp h
    rw [List.takeWhile_cons, List.filter_cons]
    by_cases hs : s.1 < b
    · simp only [hs, decide_true, if_true]
      rw [ih hrest]
    · simp only [hs, decide_false, Bool.false_eq_true, if_false]
      refine (List.filter_eq_nil_iff.mpr ?_).symm
      intro t ht
      have := hfirst t ht
      simp only [decide_eq_true_eq]
      omega

/-- Leaving behind what ends by `a` and stopping at what starts from `b` on finds the window. -/
theorem walk_eq_window (h : Ordered spans) :
    (((spans.dropWhile (·.2 ≤ a)).takeWhile (·.1 < b)).filterMap fun s =>
      if s.1 < s.2 then some (clip a b s) else none) = window a b spans := by
  rw [dropWhile_eq_filter h, takeWhile_eq_filter (h.sublist List.filter_sublist), window,
    ← List.filterMap_eq_map, ← List.filterMap_eq_filter, ← List.filterMap_eq_filter,
    ← List.filterMap_eq_filter, List.filterMap_filterMap, List.filterMap_filterMap,
    List.filterMap_filterMap]
  refine List.filterMap_congr fun s _ => ?_
  by_cases ha : s.2 ≤ a <;> by_cases hb : s.1 < b <;> by_cases hlt : s.1 < s.2 <;>
    simp [Option.guard, meets, ha, hb, hlt, Nat.not_lt.mpr, Nat.lt_of_not_le]

/-- What is left behind at one place is not needed at a later one. -/
theorem window_dropWhile {c : Nat} (hac : a ≤ c) (h : Ordered spans) :
    window c b (spans.dropWhile (·.2 ≤ a)) = window c b spans := by
  rw [window, window, dropWhile_eq_filter h, List.filter_filter]
  congr 1
  refine List.filter_congr fun s _ => ?_
  by_cases hmeets : meets c b s = true
  · obtain ⟨-, -, hs⟩ := meets_iff.mp hmeets
    have : ¬ s.2 ≤ a := by omega
    simp [hmeets, this]
  · simp [hmeets]

end Meho.Lib.Spans
