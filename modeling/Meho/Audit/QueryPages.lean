import Meho.Audit.Replay
import Meho.Graph.SnapshotText
import Meho.Topology.TimelineWalk

/- The pages of the audit query (audit_query/query.py, audit_query/cursor.py).

A page holds the first rows beyond the position of its cursor, newest first; rows of one
timestamp come by their ids. A filter beside cursor and limit is any condition on a row
and the tables. What an entry shows beside the names is in its row.

Results: a cursor reads back (`decode_encodeCursor`); the walk by `next_cursor` ends and
returns each row that was there and matches once, newest first, whatever rows come in
(`audit_pages_exact`).

An id is read as documented: 32 hexadecimal digits once hyphens, braces and `urn:uuid:` are
dropped.

Correspondence: `uuid.UUID(text)` ↔ `uuidOf`, `has_more` ↔ the test in `queryAudit`; what
is not listed keeps its name. -/
namespace Meho.Audit.Query
open Meho.Lib Meho.Graph Meho.Graph.SnapshotText Meho.Topology
open Meho.Audit.Replay (Target Tenant)

/-! ## Identifiers -/

abbrev Uuid := { n : Nat // isUuid n }

/-- `text.replace(word, "")`; `skip` characters of a word that is dropped are still to come. -/
def dropWord (word : List Char) : (skip : Nat) → List Char → List Char
  | _, [] => []
  | skip + 1, _ :: rest => dropWord word skip rest
  | 0, c :: rest =>
    if word.isPrefixOf (c :: rest) then dropWord word (word.length - 1) rest
    else c :: dropWord word 0 rest

def stripChars (p : Char → Bool) (text : List Char) : List Char :=
  ((text.dropWhile p).reverse.dropWhile p).reverse

def readHex : (acc : Nat) → List Char → Option Nat
  | acc, [] => some acc
  | acc, c :: rest => (hexDigit c).bind fun d => readHex (acc * 16 + d) rest

def uuidOf (text : String) : Option Uuid :=
  let bare := dropWord ['u', 'u', 'i', 'd', ':'] 0 (dropWord ['u', 'r', 'n', ':'] 0 text.toList)
  let hex := (stripChars (fun c => c = '\x7b' || c = '\x7d') bare).filter (· ≠ '-')
  if hex.length ≠ 32 then none
  else (readHex 0 hex).bind fun n => if h : n < 16 ^ 32 then some ⟨n, h⟩ else none

theorem readHex_hexDigits (width acc n : Nat) (rest : List Char) :
    readHex acc (hexDigits width n ++ rest) = readHex (acc * 16 ^ width + n % 16 ^ width) rest := by
  induction width generalizing n rest with
  | zero => simp [hexDigits, Nat.mod_one]
  | succ width ih =>
    have hdigit : ∀ k < 16, Meho.hexDigit (SnapshotText.hexDigit k) = some k := by decide
    have hsum : (acc * 16 ^ width + n / 16 % 16 ^ width) * 16 + n % 16 =
        acc * 16 ^ (width + 1) + n % 16 ^ (width + 1) := by
      rw [Nat.pow_succ', Nat.mod_mul]
      ring
    rw [hexDigits, List.append_assoc, ih, List.singleton_append, readHex,
      hdigit _ (Nat.mod_lt n (by decide)), Option.bind_some, hsum]

section Text
variable {text : List Char} {p : Char → Bool}

theorem dropWord_of_notMem {c : Char} {word : List Char} (h : c ∉ text) :
    dropWord (c :: word) 0 text = text := by
  induction text with
  | nil => rfl
  | cons d text ih =>
    rw [List.mem_cons, not_or] at h
    obtain ⟨hne, hrest⟩ := h
    have hword : (c :: word).isPrefixOf (d :: text) = false := by
      simp [List.isPrefixOf, hne]
    rw [dropWord, hword, if_neg Bool.false_ne_true, ih hrest]

theorem stripChars_of_none (h : ∀ c ∈ text, p c = false) : stripChars p text = text := by
  have hdrop : ∀ l : List Char, (∀ c ∈ l, p c = false) → l.dropWhile p = l := by
    intro l hl
    cases l with
    | nil => rfl
    | cons c l => rw [List.dropWhile_cons_of_neg (by simp [hl c List.mem_cons_self])]
  rw [stripChars, hdrop text h, hdrop _ fun c hc => h c (List.mem_reverse.mp hc),
    List.reverse_reverse]

end Text

theorem uuidText_mem {id : Nat} : ∀ c ∈ uuidText id, c ∈ "0123456789abcdef-".toList := by
  intro c hc
  by_cases hdash : c = '-'
  · exact hdash ▸ by decide
  · have hkept : c ∈ (uuidText id).filter (· ≠ '-') := by simpa using ⟨hc, hdash⟩
    rw [uuidText_hex] at hkept
    exact List.mem_append_left ['-'] (hexDigits_mem hkept)

theorem uuidText_all {id : Nat} {p : Char → Bool} (h : "0123456789abcdef-".toList.all p = true) :
    ∀ c ∈ uuidText id, p c = true :=
  fun c hc => List.all_eq_true.mp h c (uuidText_mem c hc)

theorem uuidOf_uuidText (id : Uuid) : uuidOf (String.ofList (uuidText id.val)) = some id := by
  have hchar : ∀ c ∈ uuidText id.val, (c ≠ 'u' && !(c = '\x7b' || c = '\x7d')) = true :=
    uuidText_all rfl
  have hu : 'u' ∉ uuidText id.val := fun h => absurd (hchar _ h) (by decide)
  have hbrace : ∀ c ∈ uuidText id.val, (c = '\x7b' || c = '\x7d') = false := fun c hc =>
    (Bool.not_eq_true' _).mp (Bool.and_eq_true_iff.mp (hchar c hc)).2
  have hid : id.val < 16 ^ 32 := id.property
  have hread := readHex_hexDigits 32 0 id.val []
  rw [List.append_nil, Nat.zero_mul, Nat.zero_add, Nat.mod_eq_of_lt hid, readHex] at hread
  rw [uuidOf, String.toList_ofList, dropWord_of_notMem hu, dropWord_of_notMem hu,
    stripChars_of_none hbrace, uuidText_hex, hexDigits_length,
    if_neg (fun h => h rfl), hread, Option.bind_some, dif_pos hid]

/-! ## Cursors -/

/-- The row a cursor points behind. -/
structure CursorPosition where
  ts : DateTime
  id : Uuid

structure InvalidCursorError where
  message : String

def positionPayload (p : CursorPosition) : List (String × Flat) :=
  [("ts", .str p.ts.isoformat), ("id", .str (String.ofList (uuidText p.id.val)))]

def encodeCursor (p : CursorPosition) : String :=
  let raw := (String.ofList (dumpsFlat (positionPayload p))).toUTF8
  String.ofList (base64Encode raw.data.toList)

def decodeCursor (token : String) : Except InvalidCursorError CursorPosition := do
  let payload ← (tokenPayload token).mapError fun e => ⟨e.message⟩
  let (tsRaw, idRaw) ← match dictGetStr payload "ts", dictGetStr payload "id" with
    | some ts, some id => .ok (ts, id)
    | _, _ => .error ⟨"cursor payload missing 'ts' or 'id' string"⟩
  let ts ← match fromisoformat tsRaw with
    | some ts => .ok ts
    | none => .error ⟨"cursor 'ts' is not ISO-8601"⟩
  let id ← match uuidOf idRaw with
    | some id => .ok id
    | none => .error ⟨"cursor 'id' is not a UUID"⟩
  .ok ⟨ts, id⟩

theorem plain_positionPayload (p : CursorPosition) :
    ∀ m ∈ positionPayload p, plainText m.1 ∧ m.2.plain := by
  have hts : plainText "ts" := plainText_of_all rfl
  have hid : plainText "id" := plainText_of_all rfl
  have huuid : plainText (String.ofList (uuidText p.id.val)) := by
    unfold plainText
    rw [String.toList_ofList]
    exact uuidText_all rfl
  exact List.forall_mem_cons.mpr ⟨⟨hts, plainText_isoformat _⟩,
    List.forall_mem_singleton.mpr ⟨hid, huuid⟩⟩

theorem decode_encodeCursor (p : CursorPosition) : decodeCursor (encodeCursor p) = .ok p := by
  have hloads : loads (String.ofList (dumpsFlat (positionPayload p))) = _ :=
    loads_dumpsFlat (List.cons_ne_nil _ _) (plain_positionPayload p)
  have hpayload : tokenPayload (encodeCursor p) =
      .ok (dictUpdate [] (flatDict (positionPayload p))) := by
    rw [tokenPayload, encodeCursor, String.toList_ofList, base64Decode_encode]
    simp only [fromUTF8_toUTF8, Option.bind_some, hloads]
  have hts : dictGetStr (dictUpdate [] (flatDict (positionPayload p))) "ts" =
      some p.ts.isoformat := rfl
  have hid : dictGetStr (dictUpdate [] (flatDict (positionPayload p))) "id" =
      some (String.ofList (uuidText p.id.val)) := rfl
  simp only [decodeCursor, hpayload, Except.mapError, bind, Except.bind, hts, hid,
    fromisoformat_isoformat, uuidOf_uuidText]

/-! ## The query -/

/-- A stored row, with `φ` for the columns that only filters and entries read. -/
structure AuditLog (φ : Type) where
  id : Uuid
  occurredAt : DateTime
  tenantId : Option Nat
  targetId : Option Nat
  columns : φ

/-- The tables a page is read from. -/
structure AuditDb (φ : Type) where
  logs : List (AuditLog φ)
  targets : List Target
  tenants : List Tenant
  /-- `(audit_id, tenant_id)` of the stored traces. -/
  traces : List (Uuid × Nat)
  log_ids : (logs.map (·.id)).Nodup
  target_ids : (targets.map (·.id)).Nodup
  tenant_ids : (tenants.map (·.id)).Nodup

structure AuditEntry (φ : Type) extends AuditLog φ where
  targetName : Option String
  tenantName : Option String

structure AuditQueryFilters (φ : Type) where
  /-- The filters beside cursor and limit. -/
  keeps : AuditDb φ → AuditLog φ → Bool
  limit : Nat
  cursor : Option String
  limit_valid : 1 ≤ limit ∧ limit ≤ 1000

structure AuditQueryResult (φ : Type) where
  rows : List (AuditEntry φ)
  nextCursor : Option String

variable {φ : Type}

def AuditLog.position (row : AuditLog φ) : CursorPosition := ⟨row.occurredAt, row.id⟩

/-- The place of a row in `ORDER BY occurred_at DESC, id DESC`; `micros` orders as instants do. -/
def AuditLog.place (row : AuditLog φ) : (Nat ×ₗ Nat)ᵒᵈ :=
  OrderDual.toDual (toLex (micros row.occurredAt, row.id.val))

open AuditLog (place)

/-- `a` is newer than `b`, or of the same time and with the higher id. -/
def AuditLog.Precedes (a b : AuditLog φ) : Prop :=
  b.occurredAt.instant < a.occurredAt.instant ∨
    b.occurredAt.instant = a.occurredAt.instant ∧ b.id.val < a.id.val

def pastCursor (row : AuditLog φ) (pos : CursorPosition) : Bool :=
  row.occurredAt.instant < pos.ts.instant ||
    (row.occurredAt.instant = pos.ts.instant && row.id.val < pos.id.val)

section Query
variable (db : AuditDb φ) (tenantId : Nat) (f : AuditQueryFilters φ)

def matching (row : AuditLog φ) : Bool := row.tenantId = some tenantId && f.keeps db row

/-- The row with the names of the outer joins. -/
def joined (row : AuditLog φ) : AuditEntry φ where
  toAuditLog := row
  targetName :=
    (db.targets.find? fun t => row.targetId = some t.id ∧ t.tenantId = tenantId).map (·.name)
  tenantName := (db.tenants.find? fun t => row.tenantId = some t.id).map (·.name)

def filterPosition : Option String → Except InvalidCursorError (Option CursorPosition)
  | none => .ok none
  | some token => (decodeCursor token).map some

def queryAudit : Except InvalidCursorError (AuditQueryResult φ) := do
  let position ← filterPosition f.cursor
  let rawRows := (orderBy place (db.logs.filter fun row =>
    matching db tenantId f row && position.all (pastCursor row))).take (f.limit + 1)
  let entries := (rawRows.take f.limit).map (joined db tenantId)
  let nextCursor := if f.limit < rawRows.length then
      entries.getLast?.map fun last => encodeCursor last.position
    else none
  .ok ⟨entries, nextCursor⟩

def matchingRows : List (AuditLog φ) := db.logs.filter (matching db tenantId f)

variable {db tenantId f}

theorem place_lt {a b : AuditLog φ} : a.place < b.place ↔ a.Precedes b := by
  rw [AuditLog.Precedes, ← micros_lt, ← micros_inj]
  exact Prod.Lex.toLex_lt_toLex

theorem place_id {a b : AuditLog φ} (h : a.place = b.place) : a.id = b.id :=
  Subtype.ext (Prod.mk.inj (toLex.injective (OrderDual.toDual.injective h))).2

theorem matchingRows_nodup : ((matchingRows db tenantId f).map place).Nodup := by
  have hids : ((matchingRows db tenantId f).map AuditLog.id).Nodup :=
    (List.filter_sublist.map AuditLog.id).nodup db.log_ids
  rw [List.nodup_iff_pairwise_ne, List.pairwise_map] at hids ⊢
  exact hids.imp fun hne heq => hne (place_id heq)

variable (φ) in
/-- A token names the place of a row. -/
def Names (token : String) (x : (Nat ×ₗ Nat)ᵒᵈ) : Prop :=
  ∃ row : AuditLog φ, token = encodeCursor row.position ∧ x = row.place

theorem queryAudit_page {token : Option String} {c : Option (Nat ×ₗ Nat)ᵒᵈ}
    (h : Option.Rel (Names φ) token c) :
    ∃ result, queryAudit db tenantId { f with cursor := token } = .ok result ∧
      result.rows.map (·.toAuditLog) = page place f.limit c (matchingRows db tenantId f) ∧
      Option.Rel (Names φ) result.nextCursor
        (next place f.limit c (matchingRows db tenantId f)) := by
  obtain ⟨position, hposition, hpast⟩ : ∃ position, filterPosition token = .ok position ∧
      ∀ row : AuditLog φ, position.all (pastCursor row) = c.all (· < row.place) := by
    cases h with
    | none => exact ⟨none, rfl, fun _ => rfl⟩
    | some h =>
      obtain ⟨last, rfl, rfl⟩ := h
      refine ⟨some last.position, by rw [filterPosition, decode_encodeCursor]; rfl, fun row => ?_⟩
      rw [Option.all_some, Option.all_some, Bool.eq_iff_iff, decide_eq_true_eq, place_lt]
      simp only [pastCursor, Bool.or_eq_true, Bool.and_eq_true, decide_eq_true_eq]
      exact Iff.rfl
  -- the rows behind the cursor, in the order of the pages
  let ordered := orderBy place (beyond place c (matchingRows db tenantId f))
  have hordered : orderBy place (db.logs.filter fun row =>
      matching db tenantId f row && position.all (pastCursor row)) = ordered := by
    refine congrArg (orderBy place) ?_
    rw [beyond, matchingRows, List.filter_filter]
    exact List.filter_congr fun row _ => by rw [hpast, Bool.and_comm]
  have hcut : (ordered.take (f.limit + 1)).take f.limit = ordered.take f.limit := by
    rw [List.take_take, Nat.min_eq_left (Nat.le_succ _)]
  have hquery : queryAudit db tenantId { f with cursor := token } =
      .ok ⟨(ordered.take f.limit).map (joined db tenantId),
        if f.limit < (ordered.take (f.limit + 1)).length then
          ((ordered.take f.limit).map (joined db tenantId)).getLast?.map fun last =>
            encodeCursor last.position
        else none⟩ := by
    rw [← hcut, ← hordered]
    simp only [queryAudit, hposition]
    rfl
  refine ⟨_, hquery, ?_, ?_⟩
  · rw [List.map_map]
    exact List.map_id _
  -- one row more is read than is shown, which tells whether there is a next page
  · have hmore : f.limit < (ordered.take (f.limit + 1)).length ↔
        f.limit < (beyond place c (matchingRows db tenantId f)).length := by
      have hlength : ordered.length = (beyond place c _).length := (perm_orderBy _ _).length_eq
      rw [List.length_take]
      omega
    simp only [hmore, List.getLast?_map, Option.map_map]
    rw [next]
    split
    · show Option.Rel _ _ ((ordered.take f.limit).getLast?.map place)
      cases (ordered.take f.limit).getLast? with
      | none => exact .none
      | some last => exact .some ⟨last, rfl, rfl⟩
    · exact .none

end Query

/-! ## The walk -/

section Walk
variable (db : Nat → AuditDb φ) (tenantId : Nat) (f : AuditQueryFilters φ)

/-- Page `i` of a walk, `none` when the walk was over before it; the tables may change from
page to page. -/
def auditWalk : Nat → Option (Except InvalidCursorError (AuditQueryResult φ)) :=
  walk (fun i token => queryAudit (db i) tenantId { f with cursor := token }) (·.nextCursor)

abbrev rowsAt (i : Nat) : List (AuditLog φ) := matchingRows (db i) tenantId f

theorem audit_serves : Serves place (fun _ => f.limit) (rowsAt db tenantId f)
    (fun i token => queryAudit (db i) tenantId { f with cursor := token }) (·.nextCursor) (Names φ)
    (·.rows.map (·.toAuditLog)) :=
  fun _ _ _ h => queryAudit_page h

variable {db}

theorem logs_le (hgrow : ∀ i, (db i).logs ⊆ (db (i + 1)).logs) {i j : Nat} (h : i ≤ j) :
    (db i).logs ⊆ (db j).logs := by
  induction j, h using Nat.le_induction with
  | base => exact fun _ hr => hr
  | succ j _ ih => exact fun _ hr => hgrow j (ih hr)

variable {tenantId f}

theorem mem_rowsAt {row : AuditLog φ} {i : Nat} : row ∈ rowsAt db tenantId f i ↔
    row ∈ (db i).logs ∧ matching (db i) tenantId f row = true := List.mem_filter

variable (tenantId f)

/-- Decoding a cursor undoes encoding it. Where rows only come in, following `next_cursor` ends:
the rows come newest first, each matches when it is read, no id comes twice, and a row that
was there at the first page and matches throughout comes. Where the rows that come in are
newer than those of the first page, exactly the matching rows of the first page's time come. -/
theorem audit_pages_exact (hgrow : ∀ i, (db i).logs ⊆ (db (i + 1)).logs) :
    (∀ p, decodeCursor (encodeCursor p) = .ok p) ∧
    ∃ (n : Nat) (pages : Nat → AuditQueryResult φ),
      (∀ i ≤ n, auditWalk db tenantId f i = some (.ok (pages i))) ∧ (pages n).nextCursor = none ∧
      let returned := (List.range (n + 1)).flatMap fun i => (pages i).rows.map (·.toAuditLog)
      returned.Pairwise (·.Precedes ·) ∧ (returned.map (·.id)).Nodup ∧
      (∀ i ≤ n, ∀ e ∈ (pages i).rows, e.toAuditLog ∈ rowsAt db tenantId f i) ∧
      (∀ row, (∀ i ≤ n, row ∈ rowsAt db tenantId f i) → row ∈ returned) ∧
      ((∀ i ≤ n, ∀ row ∈ (db 0).logs, f.keeps (db i) row = f.keeps (db 0) row) →
        (∀ i ≤ n, ∀ row ∈ (db i).logs, row ∉ (db 0).logs →
          ∀ e ∈ (pages 0).rows, row.Precedes e.toAuditLog) →
        returned = orderBy place (rowsAt db tenantId f 0)) := by
  refine ⟨decode_encodeCursor, ?_⟩
  have hkeys : ∀ i, ((rowsAt db tenantId f i).map place).Nodup := fun _ => matchingRows_nodup
  obtain ⟨n, pages, hwalk, hlast, hrows, hlive, hend⟩ :=
    walk_ends (audit_serves db tenantId f) hkeys
  have hpages : ((List.range (n + 1)).flatMap fun i => (pages i).rows.map (·.toAuditLog)) =
      paged place (fun _ => f.limit) (rowsAt db tenantId f) (n + 1) :=
    List.flatMap_congr fun i hi => hrows i (Nat.le_of_lt_succ (List.mem_range.mp hi))
  have hstrict := paged_strictly (fun _ => f.limit) hkeys (n + 1)
  have hcomplete : ∀ row, (∀ i ≤ n, row ∈ rowsAt db tenantId f i) →
      row ∈ paged place (fun _ => f.limit) (rowsAt db tenantId f) (n + 1) := by
    intro row hrow
    obtain ⟨found, hfound, hplace⟩ := paged_complete hkeys (fun _ => f.limit_valid.1) hlive hend
      fun i hi => ⟨row, hrow i hi, rfl⟩
    obtain ⟨i, hi, hmem⟩ := mem_paged.mp hfound
    have hat := (mem_rowsAt.mp (mem_of_mem_pageAt hmem)).1
    have hi := Nat.le_of_lt_succ hi
    exact List.inj_on_of_nodup_map (db i).log_ids hat (mem_rowsAt.mp (hrow i hi)).1
      (place_id hplace) ▸ hfound
  refine ⟨n, pages, hwalk, hlast, ?_⟩
  rw [hpages]
  refine ⟨hstrict.imp place_lt.mp, ?_, fun i hi e he => ?_, hcomplete, fun hkeeps hnewer => ?_⟩
  · rw [List.nodup_iff_pairwise_ne, List.pairwise_map]
    refine hstrict.imp_of_mem fun {a b} ha hb hlt hid => ?_
    obtain ⟨i, hi, ha⟩ := mem_paged.mp ha
    obtain ⟨j, hj, hb⟩ := mem_paged.mp hb
    have hsame := List.inj_on_of_nodup_map (db n).log_ids
      (logs_le hgrow (Nat.le_of_lt_succ hi) (mem_rowsAt.mp (mem_of_mem_pageAt ha)).1)
      (logs_le hgrow (Nat.le_of_lt_succ hj) (mem_rowsAt.mp (mem_of_mem_pageAt hb)).1) hid
    exact lt_irrefl _ (hsame ▸ hlt)
  · have hmem := List.mem_map_of_mem (f := (·.toAuditLog)) he
    rw [hrows i hi] at hmem
    exact mem_of_mem_pageAt hmem
  · refine eq_of_strictly hstrict (orderBy_strictly (hkeys 0)) fun row => ?_
    rw [mem_orderBy]
    constructor
    · intro hrow
      obtain ⟨i, hi, hrow⟩ := mem_paged.mp hrow
      have hi := Nat.le_of_lt_succ hi
      obtain ⟨hlog, hmatch⟩ := mem_rowsAt.mp (mem_of_mem_pageAt hrow)
      by_cases hold : row ∈ (db 0).logs
      · rw [matching, hkeeps i hi row hold] at hmatch
        exact mem_rowsAt.mpr ⟨hold, hmatch⟩
      -- a row that came in stands before the first page and is on no later one
      · obtain ⟨first, hfirst, hlt⟩ := first_before hkeys hrow (fun h => hold (h ▸ hlog))
        rw [← hrows 0 (Nat.zero_le n)] at hfirst
        obtain ⟨e, he, rfl⟩ := List.mem_map.mp hfirst
        exact absurd (place_lt.mpr (hnewer i hi row hlog hold e he)) (lt_asymm hlt)
    · intro hrow
      obtain ⟨hlog, hmatch⟩ := mem_rowsAt.mp hrow
      refine hcomplete row fun i hi => mem_rowsAt.mpr ⟨logs_le hgrow (Nat.zero_le i) hlog, ?_⟩
      rw [matching, hkeeps i hi row hlog]
      exact hmatch

end Walk

def sampleTime : DateTime := ⟨⟨2026, 3, 5, 7, 11, 13, 17, some 0⟩, by decide⟩

/-- Two rows of one time. -/
def twoRows : AuditDb Unit where
  logs := [⟨⟨7, (by decide : 7 < 16 ^ 32)⟩, sampleTime, some 1, none, ()⟩,
    ⟨⟨8, (by decide : 8 < 16 ^ 32)⟩, sampleTime, some 1, none, ()⟩]
  targets := []
  tenants := []
  traces := []
  log_ids := by decide
  target_ids := List.nodup_nil
  tenant_ids := List.nodup_nil

/-- Pages of one row: both rows come, the one with the greater id first. -/
theorem audit_pages_twoRows :
    let f : AuditQueryFilters Unit := ⟨fun _ _ => true, 1, none, by decide⟩
    ∃ (n : Nat) (pages : Nat → AuditQueryResult Unit),
      (∀ i ≤ n, auditWalk (fun _ => twoRows) 1 f i = some (.ok (pages i))) ∧
        (pages n).nextCursor = none ∧
        ((List.range (n + 1)).flatMap fun i => (pages i).rows.map (·.toAuditLog)).map (·.id.val) =
          [8, 7] := by
  intro f
  obtain ⟨n, pages, hwalk, hlast, -, -, -, -, hreturned⟩ :=
    (@audit_pages_exact Unit (fun _ => twoRows) 1 f fun _ _ h => h).2
  refine ⟨n, pages, hwalk, hlast, ?_⟩
  rw [hreturned (fun _ _ _ _ => rfl) fun _ _ _ hin hout => absurd hin hout]
  decide +kernel

end Meho.Audit.Query
