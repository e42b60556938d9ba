import Meho.Runner.WorkItem

/- The rows record of a result handle (connectors/result_handle_store.py).

A spill keeps the longest prefix of the rows whose record is within the cap, beside
the fields kept with the rows (the document) if there are any. The loop adds up the
size of a record that it has not encoded yet.

What is proved: `rowsWithinCap_longest`, the loop's prefix is the longest whose
encoded record fits; `stored_record_exact`, what a spill writes and what the readers
give back; `document_costs_no_row_iff`, when a document costs no row. `msgspec.json` is
a parameter: the text of a JSON value, and the decoder of a record.

Correspondence: `_StoredPayload` ↔ `StoredPayload`, `_decode` ↔ `decodeFor`; what is
not listed keeps its name. The key, the metrics and the log are left out. -/
namespace Meho.Results.RowsRecord

abbrev Bytes := List Nat

inductive Coverage where
  | unknown
  | partly
  | complete
  deriving DecidableEq

def Coverage.word : Coverage → String
  | unknown => "unknown"
  | partly => "partial"
  | complete => "complete"

inductive RecordKind where
  | rows
  | document
  deriving DecidableEq

def RecordKind.word : RecordKind → String
  | rows => "rows"
  | document => "document"

structure StoredPayload where
  operatorSub : String
  opId : Option String
  rows : List Dict
  totalRows : Nat
  storedRows : Nat
  createdAt : String
  capturedRows : Nat := 0
  storageCoverage : Coverage := .unknown
  sourceCoverage : Coverage := .unknown
  metadata : Dict := []
  recordKind : RecordKind := .rows
  document : Option Dict := none

/-- `msgspec.json`: the text of a value, and the decoder of a `_StoredPayload`. -/
structure Msgspec where
  value : Json → Bytes
  decode : Bytes → Option StoredPayload

def ascii (s : String) : Bytes := s.toList.map Char.toNat

/-- `str(n)`. -/
def digits (n : Nat) : Bytes := ascii (toString n)

def longestCreatedAt : String := "2000-01-01T00:00:00.000000+00:00"

structure SpillCall where
  operatorSub : String
  opId : Option String
  rows : List Dict
  totalRows : Nat
  ttlSeconds : Nat
  maxRows : Nat
  maxRecordBytes : Option Nat := none
  metadata : Option Dict := none
  document : Option Dict := none
  createdAt : String

structure SpillResult where
  storedRows : Nat
  documentStored : Bool := false
  deriving DecidableEq

structure SpilledWindow where
  rows : List Dict
  totalRows : Nat
  storedRows : Nat
  truncated : Bool

structure SpilledRowSet where
  rows : List Dict
  totalRows : Nat
  storedRows : Nat

/-- `ResultRecordKindError`: the handle holds the other kind of record. -/
structure RecordKindError where
  recordKind : RecordKind

section
variable (m : Msgspec)

/-- `["a","b"]` of texts. -/
def listText (items : List Bytes) : Bytes :=
  ascii "[" ++ (ascii ",").intercalate items ++ ascii "]"

def quoted (word : String) : Bytes := ascii "\"" ++ ascii word ++ ascii "\""

/-- `msgspec.json.encode` of a record: its fields in the order of the class. -/
def encode (p : StoredPayload) : Bytes :=
  (ascii "\x7b\"operator_sub\":" ++ m.value (.str p.operatorSub) ++
    ascii ",\"op_id\":" ++ m.value (p.opId.elim .null .str) ++ ascii ",\"rows\":") ++
  listText (p.rows.map fun row => m.value (.obj row)) ++
  (ascii ",\"total_rows\":" ++ digits p.totalRows ++ ascii ",\"stored_rows\":") ++
  digits p.storedRows ++
  (ascii ",\"created_at\":" ++ m.value (.str p.createdAt) ++
    ascii ",\"captured_rows\":" ++ digits p.capturedRows ++ ascii ",\"storage_coverage\":") ++
  quoted p.storageCoverage.word ++
  (ascii ",\"source_coverage\":" ++ quoted p.sourceCoverage.word ++
    ascii ",\"metadata\":" ++ m.value (.obj p.metadata) ++
    ascii ",\"record_kind\":" ++ quoted p.recordKind.word ++
    ascii ",\"document\":" ++ m.value (p.document.elim .null .obj) ++ ascii "\x7d")

def rowsRecordBytes (rows : List Dict) (operatorSub : String) (opId : Option String)
    (document metadata : Option Dict) : Nat :=
  (encode m {
    operatorSub, opId, rows, document
    totalRows := rows.length
    storedRows := rows.length
    createdAt := longestCreatedAt
    capturedRows := rows.length
    storageCoverage := .complete
    metadata := metadata.getD [] }).length

/-- The loop of `_rows_within_cap` over the rows that are left. -/
def rowsWithinCap (capturedRows maxRecordBytes : Nat) :
    List Dict → List Dict → Nat → List Dict
  | [], selected, _ => selected
  | row :: rest, selected, size =>
    let rowSize := (m.value (.obj row)).length
    let count := selected.length + 1
    let candidateSize := size + rowSize + (if selected = [] then 0 else 1) +
      ((digits count).length - 1) + (if count = capturedRows then 1 else 0)
    if maxRecordBytes < candidateSize then selected
    else rowsWithinCap capturedRows maxRecordBytes rest (selected ++ [row])
      (size + rowSize + if count > 1 then 1 else 0)

def selectRecord (baseline : StoredPayload) (candidates : List Dict)
    (capturedRows maxRecordBytes : Nat) : StoredPayload × List Dict :=
  let selected :=
    rowsWithinCap m capturedRows maxRecordBytes candidates [] (encode m baseline).length
  if selected = [] ∧ baseline.document ≠ none then
    let baseline := { baseline with document := none }
    (baseline,
      rowsWithinCap m capturedRows maxRecordBytes candidates [] (encode m baseline).length)
  else (baseline, selected)

variable (resultHandleMaxRecordBytes : Nat) (reachable : Bool)

/-- The record that `spill` writes, if it writes one, and its answer. -/
def spill (call : SpillCall) : Option Bytes × SpillResult :=
  -- the spill is off, or there is nothing to keep
  if call.rows = [] ∨ call.ttlSeconds = 0 ∨ call.maxRows = 0 then (none, ⟨0, false⟩)
  else
    let maxRecordBytes := call.maxRecordBytes.getD resultHandleMaxRecordBytes
    if maxRecordBytes = 0 then (none, ⟨0, false⟩)
    else
      let capturedRows := call.rows.length
      let (baseline, selected) := selectRecord m {
        operatorSub := call.operatorSub
        opId := call.opId
        rows := []
        totalRows := call.totalRows
        storedRows := 0
        createdAt := call.createdAt
        capturedRows
        storageCoverage := .partly
        metadata := call.metadata.getD []
        document := call.document } (call.rows.take call.maxRows) capturedRows maxRecordBytes
      if selected = [] then (none, ⟨0, false⟩)
      else
        let payload := { baseline with
          rows := selected
          storedRows := selected.length
          storageCoverage := if selected.length = capturedRows then .complete else .partly }
        let encoded := encode m payload
        if maxRecordBytes < encoded.length then (none, ⟨0, false⟩)
        -- a store that cannot be reached costs the rows, never the call
        else if reachable then (some encoded, ⟨selected.length, payload.document.isSome⟩)
        else (none, ⟨0, false⟩)

def decodeFor (raw : Bytes) (operatorSub : String) : Option StoredPayload :=
  (m.decode raw).filter fun payload => payload.operatorSub = operatorSub

def decodeWindow (raw : Bytes) (operatorSub : String) (offset limit : Nat) :
    Except RecordKindError (Option SpilledWindow) :=
  match decodeFor m raw operatorSub with
  | none => .ok none
  | some payload =>
    if payload.recordKind = .document then .error ⟨.document⟩
    else .ok (some ⟨(payload.rows.drop offset).take limit, payload.totalRows, payload.storedRows,
      decide (payload.storedRows < payload.totalRows)⟩)

def decodeRows (raw : Bytes) (operatorSub : String) :
    Except RecordKindError (Option SpilledRowSet) :=
  match decodeFor m raw operatorSub with
  | none => .ok none
  | some payload =>
    if payload.recordKind = .document then .error ⟨.document⟩
    else .ok (some ⟨payload.rows, payload.totalRows, payload.storedRows⟩)

/-! ## The size of a record -/

/-- The record of a call that keeps `rows` beside `document`. -/
def SpillCall.record (call : SpillCall) (document : Option Dict) (rows : List Dict) :
    StoredPayload where
  operatorSub := call.operatorSub
  opId := call.opId
  rows := rows
  totalRows := call.totalRows
  storedRows := rows.length
  createdAt := call.createdAt
  capturedRows := call.rows.length
  storageCoverage := if rows.length = call.rows.length then .complete else .partly
  metadata := call.metadata.getD []
  document := document

def SpillCall.candidates (call : SpillCall) : List Dict := call.rows.take call.maxRows

/-- The encoded record of `rows` beside `document` is within the cap. -/
def Fits (cap : Nat) (call : SpillCall) (document : Option Dict) (rows : List Dict) : Prop :=
  (encode m (call.record document rows)).length ≤ cap

/-- `kept` is the longest prefix of the candidates whose record fits, empty if none does. -/
structure LongestFit (cap : Nat) (call : SpillCall) (document : Option Dict) (kept : List Dict) :
    Prop where
  of_candidates : kept <+: call.candidates
  fits : kept ≠ [] → Fits m cap call document kept
  longest : ∀ rows, rows <+: call.candidates → rows ≠ [] → Fits m cap call document rows →
    rows.length ≤ kept.length

/-- The texts of some rows and the commas between them. -/
def rowsBytes (rows : List Dict) : Nat :=
  (rows.map fun row => (m.value (.obj row)).length).sum + (rows.length - 1)
end

section
variable {m : Msgspec} {cap : Nat} {call : SpillCall} {document : Option Dict}
  {rows more : List Dict}

theorem length_ascii (s : String) : (ascii s).length = s.length := by
  rw [ascii, List.length_map, String.length_toList]

theorem length_quoted (word : String) : (quoted word).length = word.length + 2 := by
  have hquote : "\"".length = 1 := rfl
  simp only [quoted, List.length_append, length_ascii]
  omega

theorem length_listText : ∀ rows : List Dict,
    (listText (rows.map fun row => m.value (.obj row))).length = rowsBytes m rows + 2
  | [] => rfl
  | [row] => by
    have hopen : "[".length = 1 := rfl
    have hclose : "]".length = 1 := rfl
    simp [listText, rowsBytes, length_ascii, hopen, hclose]
    omega
  | row :: next :: rest => by
    have ih := length_listText (next :: rest)
    have hcomma : ",".length = 1 := rfl
    simp only [listText, rowsBytes, List.map_cons, List.intercalate_cons_cons, List.length_append,
      length_ascii, List.sum_cons, List.length_cons] at ih ⊢
    omega

theorem encode_frame (call : SpillCall) (document : Option Dict) :
    ∃ a b c d : Bytes, ∀ rows, encode m (call.record document rows) =
      a ++ listText (rows.map fun row => m.value (.obj row)) ++ b ++ digits rows.length ++ c ++
        quoted (call.record document rows).storageCoverage.word ++ d := by
  simp only [encode, SpillCall.record]
  exact ⟨_, _, _, _, fun _ => rfl⟩

theorem length_coverage (document : Option Dict) (rows : List Dict) :
    (quoted (call.record document rows).storageCoverage.word).length =
      if rows.length = call.rows.length then 10 else 9 := by
  have hcomplete : Coverage.complete.word.length = 8 := by decide
  have hpartly : Coverage.partly.word.length = 7 := by decide
  simp only [length_quoted, SpillCall.record]
  split
  · rw [hcomplete]
  · rw [hpartly]

/-- What the loop adds up is the size of the record. -/
theorem length_record (document : Option Dict) (rows : List Dict)
    (hcaptured : 0 < call.rows.length) :
    (encode m (call.record document rows)).length + 1 =
      (encode m (call.record document [])).length + rowsBytes m rows +
        (digits rows.length).length + if rows.length = call.rows.length then 1 else 0 := by
  obtain ⟨a, b, c, d, hframe⟩ := encode_frame (m := m) call document
  have hnone : ¬ (List.length ([] : List Dict) = call.rows.length) := by
    rw [List.length_nil]
    omega
  have hdigit : (digits ([] : List Dict).length).length = 1 := rfl
  have hempty : rowsBytes m [] = 0 := rfl
  rw [hframe, hframe]
  simp only [List.length_append, length_listText, length_coverage, hempty, if_neg hnone, hdigit]
  split <;> omega

/-! ## The longest prefix -/

theorem length_digits (n : Nat) : (digits n).length = n.repr.length := length_ascii _

theorem digits_le {a b : Nat} (h : a ≤ b) : (digits a).length ≤ (digits b).length := by
  rw [length_digits, length_digits, Nat.length_repr_le_iff Nat.length_repr_pos]
  exact Nat.lt_of_le_of_lt h ((Nat.length_repr_le_iff Nat.length_repr_pos).mp (Nat.le_refl _))

theorem rowsBytes_snoc (rows : List Dict) (row : Dict) :
    rowsBytes m (rows ++ [row]) =
      rowsBytes m rows + (m.value (.obj row)).length + if rows = [] then 0 else 1 := by
  cases rows with
  | nil => simp [rowsBytes]
  | cons first rest =>
    simp [rowsBytes]
    omega

theorem rowsBytes_mono {more : List Dict} (h : rows <+: more) :
    rowsBytes m rows ≤ rowsBytes m more := by
  obtain ⟨rest, rfl⟩ := h
  simp only [rowsBytes, List.map_append, List.sum_append, List.length_append]
  omega

theorem SpillCall.candidates_of_rows (call : SpillCall) : call.candidates <+: call.rows :=
  List.take_prefix _ _

/-- The record of a longer prefix is no smaller. -/
theorem record_mono (document : Option Dict) {more : List Dict} (h : rows <+: more)
    (hcall : more <+: call.rows) :
    (encode m (call.record document rows)).length ≤ (encode m (call.record document more)).length := by
  rcases Nat.eq_zero_or_pos call.rows.length with hzero | hpos
  · have hmore := hcall.length_le
    have hrows := h.length_le
    have hmoreNil : more = [] := List.eq_nil_of_length_eq_zero (by omega)
    have hrowsNil : rows = [] := List.eq_nil_of_length_eq_zero (by omega)
    exact Nat.le_of_eq (by rw [hmoreNil, hrowsNil])
  · have hlength := length_record (m := m) document rows hpos
    have hlonger := length_record (m := m) document more hpos
    have hbytes := rowsBytes_mono (m := m) h
    have hdigits := digits_le h.length_le
    have hle := h.length_le
    have hcallLe := hcall.length_le
    split at hlength <;> split at hlonger <;> omega

/-- **The loop keeps the longest prefix of the rows whose encoded record is within the cap.** -/
theorem rowsWithinCap_longest (hcaptured : 0 < call.rows.length) :
    ∀ (rest selected : List Dict) (size : Nat),
    selected ++ rest = call.candidates →
    size = (encode m (call.record document [])).length + rowsBytes m selected →
    (selected ≠ [] → Fits m cap call document selected) →
    LongestFit m cap call document (rowsWithinCap m call.rows.length cap rest selected size)
  | [], selected, size, hall, _, hfits => by
    rw [List.append_nil] at hall
    exact ⟨hall ▸ List.prefix_rfl, hfits, fun rows hrows _ _ => hall ▸ hrows.length_le⟩
  | row :: rest, selected, size, hall, hsize, hfits => by
    have hnext : selected ++ [row] <+: call.candidates := ⟨rest, by rw [← hall]; simp⟩
    have hrecord := length_record (m := m) document (selected ++ [row]) hcaptured
    have hdigit : 1 ≤ (digits (selected ++ [row]).length).length := by
      rw [length_digits]
      exact Nat.length_repr_pos
    rw [rowsBytes_snoc, List.length_append, List.length_singleton] at hrecord
    rw [List.length_append, List.length_singleton] at hdigit
    have hcandidate : size + (m.value (.obj row)).length + (if selected = [] then 0 else 1) +
        ((digits (selected.length + 1)).length - 1) +
        (if selected.length + 1 = call.rows.length then 1 else 0) =
          (encode m (call.record document (selected ++ [row]))).length := by omega
    simp only [rowsWithinCap]
    rw [hcandidate]
    by_cases hover : cap < (encode m (call.record document (selected ++ [row]))).length
    · -- the next row does not fit, so no longer prefix does
      rw [if_pos hover]
      refine ⟨⟨row :: rest, hall⟩, hfits, fun rows hrows _ hrowsFit => ?_⟩
      by_contra hlonger
      have hstart : selected ++ [row] <+: rows := List.prefix_of_prefix_length_le hnext hrows
        (by rw [List.length_append, List.length_singleton]; omega)
      have hgrows := record_mono (m := m) document hstart
        (hrows.trans call.candidates_of_rows)
      unfold Fits at hrowsFit
      omega
    · rw [if_neg hover]
      apply rowsWithinCap_longest hcaptured rest (selected ++ [row])
      · rw [← hall]
        simp
      · rw [rowsBytes_snoc, hsize]
        cases selected with
        | nil => simp; omega
        | cons _ _ => simp; omega
      · exact fun _ => Nat.le_of_not_lt hover

/-! ## What a spill keeps -/

/-- What a spill selects: the longest prefix beside the document, or alone when no row fits
beside it. -/
inductive Kept (m : Msgspec) (cap : Nat) (call : SpillCall) : Option Dict → List Dict → Prop where
  | beside {kept : List Dict} (h : LongestFit m cap call call.document kept)
      (hkept : kept ≠ [] ∨ call.document = none) : Kept m cap call call.document kept
  | alone {kept : List Dict} (hbeside : LongestFit m cap call call.document [])
      (h : LongestFit m cap call none kept) : Kept m cap call none kept

theorem selectRecord_kept (m : Msgspec) (cap : Nat) (hcaptured : 0 < call.rows.length) :
    ∃ document kept, Kept m cap call document kept ∧
      selectRecord m (call.record call.document []) call.candidates call.rows.length cap =
        (call.record document [], kept) := by
  have hloop : ∀ document, LongestFit m cap call document (rowsWithinCap m call.rows.length cap
      call.candidates [] (encode m (call.record document [])).length) := by
    intro document
    have hbytes : rowsBytes m [] = 0 := rfl
    exact rowsWithinCap_longest hcaptured _ _ _ (List.nil_append _) (by rw [hbytes, Nat.add_zero])
      fun h => absurd rfl h
  have hbeside := hloop call.document
  simp only [selectRecord]
  generalize rowsWithinCap m call.rows.length cap call.candidates []
    (encode m (call.record call.document [])).length = kept at hbeside ⊢
  by_cases hdrop : kept = [] ∧ (call.record call.document []).document ≠ none
  · rw [if_pos hdrop]
    exact ⟨none, _, .alone (hdrop.1 ▸ hbeside) (hloop none), rfl⟩
  · rw [if_neg hdrop]
    refine ⟨call.document, kept, .beside hbeside ?_, rfl⟩
    by_cases hempty : call.document = none
    · exact .inr hempty
    · exact .inl fun hnil => hdrop ⟨hnil, hempty⟩

theorem Kept.longest {kept : List Dict} (h : Kept m cap call document kept) :
    LongestFit m cap call document kept := by
  cases h with
  | beside h _ => exact h
  | alone _ h => exact h

theorem LongestFit.le {kept kept' : List Dict} (h : LongestFit m cap call document kept)
    (h' : LongestFit m cap call document kept') : kept'.length ≤ kept.length := by
  cases kept' with
  | nil => exact Nat.zero_le _
  | cons row rest =>
    exact h.longest _ h'.of_candidates (List.cons_ne_nil _ _) (h'.fits (List.cons_ne_nil _ _))

theorem encode_pos (m : Msgspec) (call : SpillCall) (document : Option Dict) (rows : List Dict) :
    0 < (encode m (call.record document rows)).length := by
  obtain ⟨a, b, c, d, hframe⟩ := encode_frame (m := m) call document
  rw [hframe]
  simp only [List.length_append, length_listText]
  omega

/-- What a spill writes, and its answer. The check of the encoded size never stops it. -/
theorem spill_kept (max : Nat) (reachable : Bool) (hrows : call.rows ≠ [])
    (httl : call.ttlSeconds ≠ 0) (hmax : call.maxRows ≠ 0) :
    ∃ document kept, Kept m (call.maxRecordBytes.getD max) call document kept ∧
      spill m max reachable call =
        if kept ≠ [] ∧ reachable then
          (some (encode m (call.record document kept)), ⟨kept.length, document.isSome⟩)
        else (none, ⟨0, false⟩) := by
  have hcaptured : 0 < call.rows.length := List.length_pos_iff.mpr hrows
  obtain ⟨document, kept, hkept, hselect⟩ := selectRecord_kept m
    (call.maxRecordBytes.getD max) hcaptured
  refine ⟨document, kept, hkept, ?_⟩
  have hguard : ¬ (call.rows = [] ∨ call.ttlSeconds = 0 ∨ call.maxRows = 0) := by tauto
  have hzero : ¬ (0 = call.rows.length) := by omega
  simp only [SpillCall.record, SpillCall.candidates, List.length_nil, if_neg hzero] at hselect
  simp only [spill]
  rw [if_neg hguard, hselect]
  by_cases hkeeps : kept = []
  · simp [hkeeps]
  · have hfits := hkept.longest.fits hkeeps
    have hpos := encode_pos m call document kept
    have hcap : call.maxRecordBytes.getD max ≠ 0 := by
      intro hnone
      rw [Fits, hnone] at hfits
      omega
    rw [if_neg hcap, if_neg hkeeps]
    have hsize : ¬ call.maxRecordBytes.getD max < (encode m (call.record document kept)).length :=
      Nat.not_lt.mpr hfits
    simp only [SpillCall.record] at hsize ⊢
    rw [if_neg hsize]
    cases reachable <;> simp [hkeeps]

/-- A document whose rows record holds every row is stored with all of them. -/
theorem Kept.whole {kept : List Dict} (h : Kept m cap call document kept) (hrows : call.rows ≠ [])
    (hmax : call.rows.length ≤ call.maxRows) (hfits : Fits m cap call call.document call.rows) :
    document = call.document ∧ kept = call.rows := by
  have hall : call.candidates = call.rows := List.take_of_length_le hmax
  have hwhole : call.rows <+: call.candidates := hall ▸ List.prefix_rfl
  cases h with
  | beside h _ =>
    have hlength := h.longest call.rows hwhole hrows hfits
    exact ⟨rfl, (hall ▸ h.of_candidates).eq_of_length_le hlength⟩
  | alone hbeside _ =>
    have hlength := hbeside.longest call.rows hwhole hrows hfits
    exact absurd (List.eq_nil_of_length_eq_zero (Nat.le_zero.mp hlength)) hrows

theorem fits_of_rowsRecordBytes
    (hbytes : rowsRecordBytes m call.rows call.operatorSub call.opId call.document call.metadata ≤
      cap)
    (htotal : call.totalRows = call.rows.length)
    (hcreated : (m.value (.str call.createdAt)).length ≤ (m.value (.str longestCreatedAt)).length) :
    Fits m cap call call.document call.rows := by
  refine Nat.le_trans ?_ hbytes
  simp only [rowsRecordBytes, SpillCall.record, encode, List.length_append, htotal, if_true]
  exact Nat.add_le_add_right (Nat.add_le_add_right (Nat.add_le_add_left (Nat.add_le_add_right
    (Nat.add_le_add_right (Nat.add_le_add_right (Nat.add_le_add_left hcreated _) _) _) _) _) _) _

theorem decodeFor_record {kept : List Dict}
    (hread : m.decode (encode m (call.record document kept)) = some (call.record document kept)) :
    decodeFor m (encode m (call.record document kept)) call.operatorSub =
      some (call.record document kept) := by
  rw [decodeFor, hread, Option.filter_some]
  exact if_pos (decide_eq_true rfl)

/-- The readers get back what `spill` writes: the decoder reads its encoder's records. -/
def RoundTrips (m : Msgspec) (call : SpillCall) : Prop :=
  ∀ document rows, document = call.document ∨ document = none → rows ≠ [] →
    rows <+: call.candidates →
    m.decode (encode m (call.record document rows)) = some (call.record document rows)

/-- **The stored record holds the longest prefix that fits.** -/
theorem stored_record_exact (m : Msgspec) (max : Nat) (call : SpillCall) (hrows : call.rows ≠ [])
    (httl : call.ttlSeconds ≠ 0) (hmax : call.maxRows ≠ 0) (hdecode : RoundTrips m call) :
    ∃ document kept, Kept m (call.maxRecordBytes.getD max) call document kept ∧
      (kept = [] → spill m max true call = (none, ⟨0, false⟩)) ∧
      (kept ≠ [] → ∃ raw, spill m max true call = (some raw, ⟨kept.length, document.isSome⟩) ∧
        raw = encode m (call.record document kept) ∧
        raw.length ≤ call.maxRecordBytes.getD max ∧
        decodeRows m raw call.operatorSub = .ok (some ⟨kept, call.totalRows, kept.length⟩) ∧
        ∀ offset limit, decodeWindow m raw call.operatorSub offset limit =
          .ok (some ⟨(kept.drop offset).take limit, call.totalRows, kept.length,
            decide (kept.length < call.totalRows)⟩)) ∧
      (rowsRecordBytes m call.rows call.operatorSub call.opId call.document call.metadata ≤
          call.maxRecordBytes.getD max →
        call.rows.length ≤ call.maxRows → call.totalRows = call.rows.length →
        (m.value (.str call.createdAt)).length ≤ (m.value (.str longestCreatedAt)).length →
        document = call.document ∧ kept = call.rows) := by
  obtain ⟨document, kept, hkept, hspill⟩ := spill_kept (m := m) max true hrows httl hmax
  refine ⟨document, kept, hkept, ?_, ?_, ?_⟩
  · intro hempty
    rw [hspill, if_neg (by simp [hempty])]
  · intro hkeeps
    refine ⟨encode m (call.record document kept), by rw [hspill, if_pos ⟨hkeeps, rfl⟩], rfl,
      hkept.longest.fits hkeeps, ?_, ?_⟩
    all_goals
      have hdocument : document = call.document ∨ document = none := by
        cases hkept with
        | beside _ _ => exact .inl rfl
        | alone _ _ => exact .inr rfl
      have hread := decodeFor_record (hdecode document kept hdocument hkeeps
        hkept.longest.of_candidates)
    · rw [decodeRows, hread]
      rfl
    · intro offset limit
      rw [decodeWindow, hread]
      rfl
  · intro hbytes hlength htotal hcreated
    exact hkept.whole hrows hlength (fits_of_rowsRecordBytes hbytes htotal hcreated)

/-- Two rows and a note, under a cap that holds both rows alone, but only one beside the note. -/
def twoRowCall : SpillCall where
  operatorSub := "op-1"
  opId := none
  rows := [[("n", .int 1)], [("n", .int 2)]]
  totalRows := 2
  ttlSeconds := 60
  maxRows := 10
  maxRecordBytes := some 272
  document := some [("note", .str "kept")]
  createdAt := longestCreatedAt

/-- The four records of `twoRowCall`, each of its own length. -/
def twoRowRecord (length : Nat) : Option StoredPayload :=
  if length = 258 then some (twoRowCall.record none (twoRowCall.rows.take 1))
  else if length = 267 then some (twoRowCall.record none (twoRowCall.rows.take 2))
  else if length = 269 then
    some (twoRowCall.record twoRowCall.document (twoRowCall.rows.take 1))
  else if length = 278 then
    some (twoRowCall.record twoRowCall.document (twoRowCall.rows.take 2))
  else none

def sampleMsgspec : Msgspec where
  value v := (Runner.dumps v).map Char.toNat
  decode raw := twoRowRecord raw.length

theorem decode_twoRowRecord {record : StoredPayload} (length : Nat)
    (hlength : (encode sampleMsgspec record).length = length)
    (hrecord : twoRowRecord length = some record) :
    sampleMsgspec.decode (encode sampleMsgspec record) = some record := by
  have hread : ∀ raw, sampleMsgspec.decode raw = twoRowRecord raw.length := fun _ => rfl
  rw [hread, hlength, hrecord]

theorem roundTrips_twoRowCall : RoundTrips sampleMsgspec twoRowCall := by
  intro document rows hdocument hne hrows
  have hpos : 0 < rows.length := List.length_pos_iff.mpr hne
  have hle : rows.length ≤ 2 := hrows.length_le
  have htake : rows = twoRowCall.rows.take rows.length := List.prefix_iff_eq_take.mp hrows
  obtain hone | htwo : rows.length = 1 ∨ rows.length = 2 := by omega
  · rw [hone] at htake
    subst htake
    rcases hdocument with rfl | rfl
    · exact decode_twoRowRecord 269 (by decide +kernel) rfl
    · exact decode_twoRowRecord 258 (by decide +kernel) rfl
  · rw [htwo] at htake
    subst htake
    rcases hdocument with rfl | rfl
    · exact decode_twoRowRecord 278 (by decide +kernel) rfl
    · exact decode_twoRowRecord 267 (by decide +kernel) rfl

/-- One row is stored beside the note, and a window of five rows reads it back. -/
theorem stored_record_exact_twoRows :
    ∃ raw, spill sampleMsgspec 0 true twoRowCall = (some raw, ⟨1, true⟩) ∧ raw.length ≤ 272 ∧
      decodeWindow sampleMsgspec raw "op-1" 0 5 = .ok (some ⟨[[("n", .int 1)]], 2, 1, true⟩) := by
  obtain ⟨document, kept, hkept, hempty, hkeeps, -⟩ := stored_record_exact sampleMsgspec 0 twoRowCall
    (by decide) (by decide) (by decide) roundTrips_twoRowCall
  have hcounts : (spill sampleMsgspec 0 true twoRowCall).2 = ⟨1, true⟩ := by decide +kernel
  have hne : kept ≠ [] := by
    intro hnil
    rw [hempty hnil] at hcounts
    cases hcounts
  obtain ⟨raw, hspill, -, hfits, -, hwindow⟩ := hkeeps hne
  rw [hspill] at hcounts ⊢
  obtain ⟨hone, -⟩ := SpillResult.mk.inj hcounts
  have hrows : kept = [[("n", .int 1)]] := by
    have htake := List.prefix_iff_eq_take.mp hkept.longest.of_candidates
    rw [hone] at htake
    exact htake
  refine ⟨raw, congrArg _ hcounts, hfits, ?_⟩
  refine (hwindow 0 5).trans ?_
  rw [hrows]
  rfl

/-! ## Rows beside a document -/

theorem LongestFit.nil_of_first {kept : List Dict} (h : LongestFit m cap call document kept)
    (hfirst : ∀ row, call.candidates.head? = some row → ¬ Fits m cap call document [row]) :
    kept = [] := by
  cases kept with
  | nil => rfl
  | cons row rest =>
    have hhead : [row] <+: row :: rest := ⟨rest, rfl⟩
    have hcandidates := h.of_candidates
    refine absurd ?_ (hfirst row ?_)
    · exact Nat.le_trans (record_mono document hhead (hcandidates.trans call.candidates_of_rows))
        (h.fits (List.cons_ne_nil _ _))
    · obtain ⟨tail, htail⟩ := hcandidates
      rw [← htail]
      rfl

theorem stored_rows (m : Msgspec) (max : Nat) (reachable : Bool) (call : SpillCall)
    (hcall : call.ttlSeconds ≠ 0) :
    ∃ document kept, Kept m (call.maxRecordBytes.getD max) call document kept ∧
      (spill m max reachable call).2.storedRows = if reachable then kept.length else 0 := by
  by_cases hnone : call.rows = [] ∨ call.maxRows = 0
  · have hcandidates : call.candidates = [] := by
      rcases hnone with h | h <;> simp [SpillCall.candidates, h]
    have hfit : ∀ document, LongestFit m (call.maxRecordBytes.getD max) call document [] := fun _ =>
      { of_candidates := List.nil_prefix
        fits := fun h => absurd rfl h
        longest := fun rows hrows hne _ => absurd (List.prefix_nil.mp (hcandidates ▸ hrows)) hne }
    refine ⟨none, [], .alone (hfit _) (hfit _), ?_⟩
    rw [spill, if_pos (by tauto)]
    cases reachable <;> rfl
  · rw [not_or] at hnone
    obtain ⟨document, kept, hkept, hspill⟩ := spill_kept (m := m) max reachable hnone.1 hcall hnone.2
    refine ⟨document, kept, hkept, ?_⟩
    rw [hspill]
    cases kept <;> cases reachable <;> rfl

/-- Either the first row does not fit beside the document, or whatever fits alone fits beside it. -/
def DocumentSpares (m : Msgspec) (cap : Nat) (call : SpillCall) : Prop :=
  (∀ row, call.candidates.head? = some row → ¬ Fits m cap call call.document [row]) ∨
    ∀ rows, rows <+: call.candidates → rows ≠ [] → Fits m cap call none rows →
      Fits m cap call call.document rows

/-- **The document costs no row exactly when it spares them, or nothing is written anyway.** -/
theorem document_costs_no_row_iff (m : Msgspec) (max : Nat) (reachable : Bool) (call : SpillCall) :
    (spill m max reachable { call with document := none }).2.storedRows ≤
        (spill m max reachable call).2.storedRows ↔
      call.ttlSeconds = 0 ∨ reachable = false ∨
        DocumentSpares m (call.maxRecordBytes.getD max) call := by
  by_cases httl : call.ttlSeconds = 0
  · simp [spill, httl]
  obtain ⟨document, kept, hkept, hstored⟩ := stored_rows m max reachable call httl
  obtain ⟨_, alone, halone, hwithout⟩ :=
    stored_rows m max reachable { call with document := none } httl
  -- the record of a call does not look at the document the call came with
  have hlongest : LongestFit m (call.maxRecordBytes.getD max) call none alone := by
    cases halone with
    | beside h _ => exact ⟨h.of_candidates, h.fits, h.longest⟩
    | alone _ h => exact ⟨h.of_candidates, h.fits, h.longest⟩
  rw [hstored, hwithout]
  cases reachable with
  | false => simp
  | true =>
    simp only [httl, if_true, Bool.true_eq_false, false_or]
    constructor
    · intro hle
      cases hkept with
      | alone hbeside _ =>
        refine .inl fun row hrow hfits => ?_
        have hone : [row] <+: call.candidates := by
          obtain ⟨rest, hrest⟩ := List.head?_eq_some_iff.mp hrow
          exact ⟨rest, hrest.symm⟩
        exact absurd (hbeside.longest _ hone (List.cons_ne_nil _ _) hfits) (by simp)
      | beside h _ =>
        refine .inr fun rows hrows hne hfits => ?_
        have hlength := Nat.le_trans (hlongest.longest rows hrows hne hfits) hle
        have hstart := List.prefix_of_prefix_length_le hrows h.of_candidates hlength
        have hkept : kept ≠ [] := by
          rintro rfl
          exact hne (List.eq_nil_of_length_eq_zero (Nat.le_zero.mp hlength))
        exact Nat.le_trans (record_mono _ hstart (h.of_candidates.trans call.candidates_of_rows))
          (h.fits hkept)
    · intro hspares
      cases hkept with
      | alone _ h => exact h.le hlongest
      | beside h hkept =>
        rcases hspares with hfirst | hall
        · have hempty := h.nil_of_first hfirst
          rcases hkept with hne | hdocument
          · exact absurd hempty hne
          · exact (hdocument ▸ h).le hlongest
        · cases alone with
          | nil => exact Nat.zero_le _
          | cons row rest =>
            have hne : row :: rest ≠ [] := List.cons_ne_nil _ _
            exact h.longest _ hlongest.of_candidates hne
              (hall _ hlongest.of_candidates hne (hlongest.fits hne))

/-- The note costs a row. -/
theorem document_costs_a_row :
    (spill sampleMsgspec 0 true twoRowCall).2.storedRows = 1 ∧
      (spill sampleMsgspec 0 true { twoRowCall with document := none }).2.storedRows = 2 := by
  decide +kernel
end

end Meho.Results.RowsRecord
