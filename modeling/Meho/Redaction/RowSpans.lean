import Mathlib.Algebra.GroupWithZero.Nat
import Meho.Redaction.Engine
import Meho.Lib.Spans

/- Rows that are redacted as one text (redaction/engine.py).

`perRow` meets every match with every row. The walk of `rewriteRows`, which goes through
rows and matches once, does the same (`rewriteRows_eq_perRow`). A row is cut into parts
(`RowRedacted`): the parts inside matches are replaced, one match at a time, and the marks of
the parts say of every character whether a match of the joined text covers it. Between the
ends of a match an empty row counts as inside and becomes a marker, with no character
covered. -/
namespace Meho.Redaction.RowSpans
open Lib.Spans

/-! ## One row -/

section Row
variable (tools : RedactionTools) (rule : RedactionRule)

/-- What the rule writes in place of a matched part. -/
def put (matched : List Char) : List Char := (replacementFor tools rule (String.ofList matched)).toList

theorem toList_slice (text : String) (start stop : Nat) :
    (slice text start stop).toList = between text.toList start stop := by
  rw [slice, String.toList_ofList, between]

theorem slice_eq_of_toList {text row : String} {before behind : List Char}
    (h : text.toList = before ++ row.toList ++ behind) :
    slice text before.length (before.length + row.length) = row := by
  rw [← String.toList_inj, toList_slice, between, h, List.append_assoc, List.drop_left,
    Nat.add_sub_cancel_left, ← String.length_toList, List.take_left]

theorem toList_replaceSpans (leaf : String) (cursor : Nat) (spans : List Span) :
    (replaceSpans tools rule leaf cursor spans).toList =
      filled leaf.toList (put tools rule) cursor spans := by
  induction spans generalizing cursor with
  | nil =>
    rw [replaceSpans, toList_slice, filled_nil, between, ← String.length_toList,
      ← List.length_drop, List.take_length]
  | cons s spans ih =>
    rw [replaceSpans, String.toList_append, String.toList_append, ih, toList_slice, filled_cons]
    rfl

/-- The row from `offset` on, cut into parts: those inside a match are replaced. -/
def RowRedacted (spans : List Span) (offset : Nat) (row row' : String) : Prop :=
  ∃ ps : List (Bool × List Char),
    ps.flatMap Prod.snd = row.toList ∧
    marks ps = (List.range row.length).map (fun k => covers spans (offset + k)) ∧
    row'.toList = ps.flatMap fun p => if p.1 then put tools rule p.2 else p.2

/-- A row next to all matches: the parts of them that fall into it. -/
def rowAlone (mutate : Bool) (path : String) (spans : List Span) (index offset : Nat)
    (row : String) : String × List RedactionManifestEntry :=
  applySpans tools mutate rule (joinPath path (toString index)) row
    (window offset (offset + row.length) spans)

variable {tools rule} {mutate : Bool} {path : String} {spans : List Span} {index offset : Nat}
  {row : String}

theorem window_eq_nil_iff {a b : Nat} :
    window a b spans = [] ↔ spans.any (meets a b) = false := by
  rw [window, List.map_eq_nil_iff, List.filter_eq_nil_iff, List.any_eq_false]

theorem rowAlone_apart (h : spans.any (meets offset (offset + row.length)) = false) :
    rowAlone tools rule mutate path spans index offset row = (row, []) := by
  rw [rowAlone, window_eq_nil_iff.mpr h]
  rfl

theorem rowAlone_shadow :
    rowAlone tools rule false path spans index offset row =
      (row, (rowAlone tools rule true path spans index offset row).2) := by
  unfold rowAlone applySpans
  split <;> rfl

theorem paths_rowAlone :
    (rowAlone tools rule mutate path spans index offset row).2.map (·.path) =
      if spans.any (meets offset (offset + row.length)) then [joinPath path (toString index)]
      else [] := by
  cases hmeets : spans.any (meets offset (offset + row.length)) with
  | false => rw [rowAlone_apart hmeets]; rfl
  | true =>
    have hwindow : window offset (offset + row.length) spans ≠ [] := fun hnil => by
      rw [window_eq_nil_iff.mp hnil] at hmeets
      cases hmeets
    obtain ⟨first, rest, hcons⟩ := List.exists_cons_of_ne_nil hwindow
    rw [rowAlone, hcons]
    rfl

theorem rowAlone_redacted (h : Ordered spans) :
    RowRedacted tools rule spans offset row
      (rowAlone tools rule true path spans index offset row).1 := by
  have hle : offset ≤ offset + row.length := Nat.le_add_right _ _
  have hordered := window_ordered hle h
  have hinside : ∀ s ∈ window offset (offset + row.length) spans, s.2 ≤ row.toList.length := by
    intro s hs
    have := (window_inside hle s hs).2
    rw [String.length_toList]
    omega
  refine ⟨parts row.toList 0 (window offset (offset + row.length) spans), ?_, ?_, ?_⟩
  · rw [parts_text hordered fun s _ => Nat.zero_le s.1, List.drop_zero]
  · rw [parts_marks hordered (fun s _ => Nat.zero_le s.1) hinside, Nat.sub_zero,
      String.length_toList, ← List.range_eq_range']
    refine List.map_congr_left fun k hk => ?_
    exact covers_window (Nat.add_lt_add_left (List.mem_range.mp hk) offset)
  · cases hw : window offset (offset + row.length) spans with
    | nil =>
      rw [rowAlone, hw]
      simp [applySpans, parts]
    | cons first rest =>
      rw [rowAlone, hw]
      exact toList_replaceSpans tools rule row 0 (first :: rest)

end Row

/-! ## All rows -/

/-- Where row `i` starts in the joined text. -/
def rowOffset (rows : List String) (i : Nat) : Nat := ((rows.take i).map (·.length + 1)).sum

@[simp] theorem rowOffset_zero (rows : List String) : rowOffset rows 0 = 0 := by simp [rowOffset]

@[simp] theorem rowOffset_succ (row : String) (rows : List String) (i : Nat) :
    rowOffset (row :: rows) (i + 1) = row.length + 1 + rowOffset rows i := by simp [rowOffset]

theorem joinRows_cons (row next : String) (rows : List String) :
    (joinRows (row :: next :: rows)).toList =
      row.toList ++ '\n' :: (joinRows (next :: rows)).toList := by
  simp [joinRows, String.toList_intercalate]

section
variable {rows : List String} {i : Nat} {row : String} (h : rows[i]? = some row)
include h

theorem joinRows_at :
    ∃ before behind, (joinRows rows).toList = before ++ row.toList ++ behind ∧
      before.length = rowOffset rows i := by
  induction rows generalizing i with
  | nil => cases h
  | cons first rows ih =>
    cases i with
    | zero =>
      cases h
      cases rows with
      | nil => exact ⟨[], [], by simp [joinRows], by simp⟩
      | cons next rows =>
        exact ⟨[], '\n' :: (joinRows (next :: rows)).toList, by simp [joinRows_cons], by simp⟩
    | succ i =>
      cases rows with
      | nil => cases h
      | cons next rows =>
        obtain ⟨before, behind, htext, hlength⟩ := ih h
        refine ⟨first.toList ++ '\n' :: before, behind, ?_, ?_⟩
        · rw [joinRows_cons, htext]
          simp
        · rw [rowOffset_succ, List.length_append, List.length_cons, hlength, String.length_toList]
          omega

theorem slice_joinRows :
    slice (joinRows rows) (rowOffset rows i) (rowOffset rows i + row.length) = row := by
  obtain ⟨before, behind, htext, hlength⟩ := joinRows_at h
  rw [← hlength]
  exact slice_eq_of_toList htext

end

section Rows
variable (tools : RedactionTools) (rule : RedactionRule) (mutate : Bool) (path : String)

/-- Every row next to all matches, the rows from number `index` on. -/
def perRow (spans : List Span) : Nat → Nat → List String →
    List (String × List RedactionManifestEntry)
  | _, _, [] => []
  | index, offset, row :: rows =>
    rowAlone tools rule mutate path spans index offset row ::
      perRow spans (index + 1) (offset + row.length + 1) rows

variable {tools rule mutate path} {spans : List Span}

@[simp] theorem length_perRow (index offset : Nat) (rows : List String) :
    (perRow tools rule mutate path spans index offset rows).length = rows.length := by
  induction rows generalizing index offset with
  | nil => rfl
  | cons row rows ih => simp [perRow, ih]

theorem perRow_getElem? {index offset i : Nat} {rows : List String} {row : String}
    (h : rows[i]? = some row) :
    (perRow tools rule mutate path spans index offset rows)[i]? =
      some (rowAlone tools rule mutate path spans (index + i) (offset + rowOffset rows i) row) := by
  induction rows generalizing index offset i with
  | nil => cases h
  | cons first rows ih =>
    cases i with
    | zero =>
      cases h
      simp [perRow]
    | succ i =>
      rw [perRow, List.getElem?_cons_succ, ih h, rowOffset_succ]
      congr 2 <;> omega

/-- Only the matches that do not end before a row matter for it and for the rows behind it. -/
theorem perRow_dropWhile (h : Ordered spans) {a index offset : Nat} (ha : a ≤ offset)
    (rows : List String) :
    perRow tools rule mutate path (spans.dropWhile (·.2 ≤ a)) index offset rows =
      perRow tools rule mutate path spans index offset rows := by
  induction rows generalizing index offset with
  | nil => rfl
  | cons row rows ih =>
    rw [perRow, perRow, ih (by omega), rowAlone, rowAlone, window_dropWhile ha h]

/-- One pass over rows and matches meets every row with every match. -/
theorem rewriteRows_eq_perRow (h : Ordered spans) (index offset : Nat) (rows : List String) :
    rewriteRows tools mutate rule path index offset spans rows =
      ((perRow tools rule mutate path spans index offset rows).map Prod.fst,
        (perRow tools rule mutate path spans index offset rows).flatMap Prod.snd) := by
  induction rows generalizing index offset spans with
  | nil => rfl
  | cons row rows ih =>
    have hwalk : rowSpans offset (offset + row.length) (spans.dropWhile (·.2 ≤ offset)) =
        window offset (offset + row.length) spans := walk_eq_window h
    rw [rewriteRows, hwalk, ih (h.sublist (List.dropWhile_sublist _)),
      perRow_dropWhile h (by omega), perRow]
    rfl

/-- In shadow mode the entries are the same and the rows stay. -/
theorem perRow_shadow (index offset : Nat) (rows : List String) :
    (perRow tools rule false path spans index offset rows).map Prod.fst = rows ∧
      (perRow tools rule false path spans index offset rows).flatMap Prod.snd =
        (perRow tools rule true path spans index offset rows).flatMap Prod.snd := by
  induction rows generalizing index offset with
  | nil => exact ⟨rfl, rfl⟩
  | cons row rows ih =>
    obtain ⟨hrows, hentries⟩ := ih (index + 1) (offset + row.length + 1)
    rw [perRow, perRow, rowAlone_shadow]
    exact ⟨congrArg (row :: ·) hrows, congrArg (_ ++ ·) hentries⟩

/-- One entry for every row that a match runs into, under the row's own path. -/
theorem paths_perRow (index offset : Nat) (rows : List String) :
    ((perRow tools rule mutate path spans index offset rows).flatMap Prod.snd).map (·.path) =
      ((rows.zipIdx.filter fun r =>
        let start := offset + rowOffset rows r.2
        spans.any (meets start (start + r.1.length))).map fun r =>
          joinPath path (toString (index + r.2))) := by
  induction rows generalizing index offset with
  | nil => rfl
  | cons row rows ih =>
    rw [perRow, List.flatMap_cons, List.map_append, paths_rowAlone, ih, List.zipIdx_cons',
      List.filter_cons, List.filter_map]
    have hrest : ((rows.zipIdx.filter fun r =>
          let start := offset + row.length + 1 + rowOffset rows r.2
          spans.any (meets start (start + r.1.length))).map fun r =>
            joinPath path (toString (index + 1 + r.2))) =
        (rows.zipIdx.filter ((fun r : String × Nat =>
          let start := offset + rowOffset (row :: rows) r.2
          spans.any (meets start (start + r.1.length))) ∘ Prod.map id (· + 1))).map
            ((fun r : String × Nat => joinPath path (toString (index + r.2))) ∘
              Prod.map id (· + 1)) := by
      have hstart : ∀ k, offset + row.length + 1 + rowOffset rows k =
          offset + rowOffset (row :: rows) (k + 1) := by
        intro k
        rw [rowOffset_succ]
        omega
      have hindex : ∀ k, index + 1 + k = index + (k + 1) := by
        intro k
        omega
      simp only [Function.comp_def, Prod.map, id_eq, hstart, hindex]
    rw [hrest]
    simp only [rowOffset_zero, Nat.add_zero, ← List.map_map]
    split <;> rfl

end Rows

/-! ## Rows as one text -/

section OneText
variable (tools : RedactionTools) (rule : RedactionRule) (path : String) (rows : List String)

/-- A match runs over a character of the row, or over the place where an empty row stands. -/
def inMatch (spans : List Span) (start : Nat) (row : String) : Bool :=
  spans.any (meets start (start + row.length))

theorem inMatch_iff_of_ne {spans : List Span} {start : Nat} {row : String} (h : row ≠ "") :
    inMatch spans start row = true ↔ ∃ k, k < row.length ∧ covers spans (start + k) = true := by
  have hpos : 0 < row.length := Nat.pos_of_ne_zero fun h0 => h (String.length_eq_zero_iff.mp h0)
  rw [inMatch, any_meets_iff (Nat.lt_add_of_pos_right hpos)]
  constructor
  · intro ⟨k, hlow, hup, hcov⟩
    refine ⟨k - start, by omega, ?_⟩
    rwa [Nat.add_sub_cancel' hlow]
  · intro ⟨k, hk, hcov⟩
    exact ⟨start + k, Nat.le_add_right _ _, Nat.add_lt_add_left hk start, hcov⟩

theorem inMatch_empty_iff {spans : List Span} {start : Nat} :
    inMatch spans start "" = true ↔ ∃ s ∈ spans, s.1 < start ∧ start < s.2 := by
  rw [inMatch, List.any_eq_true]
  refine exists_congr fun s => and_congr_right fun _ => ?_
  rw [meets_iff, String.length_empty, Nat.add_zero]
  constructor
  · exact And.right
  · intro h
    exact ⟨Nat.lt_trans h.1 h.2, h⟩

variable {tools rule} in
theorem rowAlone_empty {path : String} {spans : List Span} {index start : Nat} (h : Ordered spans)
    (hin : inMatch spans start "" = true) :
    (rowAlone tools rule true path spans index start "").1 = replacementFor tools rule "" := by
  have hne : window start start spans ≠ [] := fun hnil => by
    rw [window_eq_nil_iff] at hnil
    rw [inMatch, String.length_empty, Nat.add_zero, hnil] at hin
    cases hin
  have hwindow := (window_point h).resolve_left hne
  rw [rowAlone, String.length_empty, Nat.add_zero, hwindow]
  simp [applySpans, replaceSpans, slice]

/-- The walk over rows and matches meets every row with every match. Rows keep their number and
order; in each, exactly the characters that a match of the joined text covers are replaced,
a row in no match stays, and every row in a match has an entry. An empty row is in a match
that runs over its place, and becomes what the rule writes for an empty text. -/
theorem rows_redacted_as_one_text
    (h : Ordered (tools.secretSpans rule.pattern (joinRows rows))) :
    let spans := tools.secretSpans rule.pattern (joinRows rows)
    let out := applyToRows tools true rule path rows
    out = ((perRow tools rule true path spans 0 0 rows).map Prod.fst,
      (perRow tools rule true path spans 0 0 rows).flatMap Prod.snd) ∧
    out.1.length = rows.length ∧
    (∀ i row, rows[i]? = some row →
      let start := rowOffset rows i
      slice (joinRows rows) start (start + row.length) = row ∧
      (row ≠ "" → (inMatch spans start row = true ↔
        ∃ k, k < row.length ∧ covers spans (start + k) = true)) ∧
      (row = "" → (inMatch spans start row = true ↔ ∃ s ∈ spans, s.1 < start ∧ start < s.2)) ∧
      ∃ row', out.1[i]? = some row' ∧ RowRedacted tools rule spans start row row' ∧
        (inMatch spans start row = false → row' = row) ∧
        (row = "" → inMatch spans start row = true → row' = replacementFor tools rule "")) ∧
    out.2.map (·.path) =
      (rows.zipIdx.filter fun r => inMatch spans (rowOffset rows r.2) r.1).map
        (fun r => joinPath path (toString r.2)) ∧
    applyToRows tools false rule path rows = (rows, out.2) := by
  intro spans out
  have hout : out = ((perRow tools rule true path spans 0 0 rows).map Prod.fst,
      (perRow tools rule true path spans 0 0 rows).flatMap Prod.snd) :=
    rewriteRows_eq_perRow h 0 0 rows
  refine ⟨hout, ?_, ?_, ?_, ?_⟩
  · rw [hout, List.length_map, length_perRow]
  · intro i row hrow start
    -- a row is rewritten by itself, with the spans shifted to where it starts
    have hget : out.1[i]? = some (rowAlone tools rule true path spans i start row).1 := by
      rw [hout, List.getElem?_map, perRow_getElem? hrow, Nat.zero_add, Nat.zero_add]
      rfl
    refine ⟨slice_joinRows hrow, inMatch_iff_of_ne, ?_, _, hget, rowAlone_redacted h, ?_, ?_⟩
    · intro hempty
      rw [hempty]
      exact inMatch_empty_iff
    · intro hapart
      rw [rowAlone_apart hapart]
    · intro hempty hin
      subst hempty
      exact rowAlone_empty h hin
  · rw [hout, paths_perRow]
    simp only [Nat.zero_add]
    rfl
  · obtain ⟨hrows, hentries⟩ := @perRow_shadow tools rule path spans 0 0 rows
    rw [hout, applyToRows, rewriteRows_eq_perRow h, hrows, hentries]

end OneText

/-! ## A sample -/

/-- Tools whose patterns match the first four characters of every text. -/
def sampleTools : RedactionTools where
  secretSpans _ _ := [(0, 4)]
  valueFingerprint text := text
  auditDigest _ := ""
  applyTier2 _ _ payload := (payload, [])
  errorCleanupRaises _ := false

def sampleRule : RedactionRule := ⟨"strip-key", "pem_private_key", .redact, ⟨none, none, none⟩, "key"⟩

/-- The match runs over the end of two rows, and leaves the third. -/
theorem rows_redacted_as_one_text_sample :
    let rows := ["a", "b", "cd"]
    let out := applyToRows sampleTools true sampleRule "" rows
    out.1 = ["[REDACTED:pem_private_key]", "[REDACTED:pem_private_key]", "cd"] ∧
      out.2.map (·.path) = ["0", "1"] ∧
      applyToRows sampleTools false sampleRule "" rows = (rows, out.2) := by
  have h : Ordered (sampleTools.secretSpans sampleRule.pattern (joinRows ["a", "b", "cd"])) :=
    ordered_cons.mpr ⟨by decide, nofun, .nil⟩
  obtain ⟨hout, -, -, hpaths, hshadow⟩ :=
    rows_redacted_as_one_text sampleTools sampleRule "" ["a", "b", "cd"] h
  refine ⟨(congrArg Prod.fst hout).trans ?_, hpaths.trans ?_, hshadow⟩
  · decide
  · decide

/-- An empty row between the ends of a match: no character of it is covered, and it is changed. -/
theorem empty_row_rewritten :
    Ordered (sampleTools.secretSpans sampleRule.pattern (joinRows ["a", "", "b"])) ∧
      (List.range "".length).all (fun k => ! covers [(0, 4)] (2 + k)) = true ∧
      rowOffset ["a", "", "b"] 1 = 2 ∧
      (applyToRows sampleTools true sampleRule "" ["a", "", "b"]).1[1]? =
        some "[REDACTED:pem_private_key]" :=
  ⟨ordered_cons.mpr ⟨by decide, nofun, .nil⟩, by decide, by decide, by decide⟩

end Meho.Redaction.RowSpans
