import Meho.JsonLoads
import Meho.Lib.Base64
import Meho.Lib.Iso8601
import Meho.Topology.Diff

/- The cursor of the topology timeline (topology/timeline_cursor.py).

Correspondence: each function keeps its name. -/
namespace Meho.Topology
open Meho.Lib

/-- `(valid_from, history_id, source)`. -/
structure TimelineCursorPosition where
  ts : DateTime
  historyId : Int
  source : Source
  deriving DecidableEq

/-- The position with a timestamp of UTC where it has no offset. -/
def TimelineCursorPosition.stampUtc (p : TimelineCursorPosition) : TimelineCursorPosition :=
  { p with ts := p.ts.stampUtc }

def cursorPayload (p : TimelineCursorPosition) : List (String × Flat) :=
  [("ts", .str p.ts.stampUtc.isoformat), ("id", .int p.historyId), ("src", .str p.source.value)]

def encodeTimelineCursor (p : TimelineCursorPosition) : String :=
  let raw := (String.ofList (dumpsFlat (cursorPayload p))).toUTF8
  String.ofList (base64Encode raw.data.toList)

/-- The texts of `InvalidTimelineCursorError`. -/
inductive InvalidTimelineCursor where
  | base64
  | json
  | notObject
  | ts
  | id
  | src
  | notIso
  | naive
  deriving DecidableEq, Repr

def InvalidTimelineCursor.message : InvalidTimelineCursor → String
  | .base64 => "cursor is not valid base64"
  | .json => "cursor payload is not valid JSON"
  | .notObject => "cursor payload is not a JSON object"
  | .ts => "cursor payload missing 'ts' string"
  | .id => "cursor payload missing 'id' integer"
  | .src => "cursor 'src' must be 'node' or 'edge'"
  | .notIso => "cursor 'ts' is not ISO-8601"
  | .naive => "cursor 'ts' must include timezone offset"

def Source.ofValue (s : String) : Option Source :=
  if s = "node" then some .node else if s = "edge" then some .edge else none

/-- The payload of a token. -/
def tokenPayload (token : String) : Except InvalidTimelineCursor Dict :=
  match base64Decode token.toList with
  | none => .error .base64
  | some raw =>
    match (String.fromUTF8? ⟨raw.toArray⟩).bind loads with
    | none => .error .json
    | some (.obj payload) => .ok payload
    | some _ => .error .notObject

def decodeTimelineCursor (token : String) : Except InvalidTimelineCursor TimelineCursorPosition := do
  let payload ← tokenPayload token
  let tsRaw ← match dictGet payload "ts" with
    | some (.str s) => .ok s
    | _ => .error .ts
  let id ← match dictGet payload "id" with
    | some (.int i) => .ok i
    | _ => .error .id
  let src ← match (dictGetStr payload "src").bind Source.ofValue with
    | some src => .ok src
    | none => .error .src
  let ts ← match fromisoformat tsRaw with
    | some ts => .ok ts
    | none => .error .notIso
  if ts.val.utcoffset.isNone then .error .naive
  else .ok ⟨ts, id, src⟩

/-! ## A token reads back -/

theorem plainChar_decimal {k n : Nat} : ∀ c ∈ decimal k n, plainChar c := by
  intro c hc
  have hdigit := isDigit_decimal c hc
  unfold isDigit digitVal at hdigit
  split at hdigit
  next h =>
    have hlow : 48 ≤ c.toNat := h.1
    have hhigh : c.toNat ≤ 57 := h.2
    have hquote : c ≠ '"' := by rintro rfl; exact absurd hlow (by decide)
    have hslash : c ≠ '\\' := by rintro rfl; exact absurd hhigh (by decide)
    simp only [plainChar, Bool.and_eq_true, decide_eq_true_eq]
    exact ⟨⟨⟨by omega, by omega⟩, hquote⟩, hslash⟩
  next => cases hdigit

theorem plainChar_printFraction (micros : Nat) : ∀ c ∈ printFraction micros, plainChar c := by
  unfold printFraction
  split
  · exact fun c hc => by cases hc
  · exact List.forall_mem_cons.mpr ⟨rfl, plainChar_decimal⟩

theorem plainChar_formatTime {hour minute second micros : Nat} :
    ∀ c ∈ formatTime hour minute second micros, plainChar c :=
  List.forall_mem_append.mpr ⟨plainChar_decimal, List.forall_mem_cons.mpr ⟨rfl,
    List.forall_mem_append.mpr ⟨plainChar_decimal, List.forall_mem_cons.mpr ⟨rfl,
      List.forall_mem_append.mpr ⟨plainChar_decimal, plainChar_printFraction micros⟩⟩⟩⟩⟩

theorem plainChar_formatClock {seconds micros : Nat} : ∀ c ∈ formatClock seconds micros, plainChar c := by
  refine List.forall_mem_append.mpr ⟨plainChar_decimal, List.forall_mem_cons.mpr ⟨rfl,
    List.forall_mem_append.mpr ⟨plainChar_decimal, ?_⟩⟩⟩
  split
  · exact fun c hc => by cases hc
  · exact List.forall_mem_cons.mpr ⟨rfl,
      List.forall_mem_append.mpr ⟨plainChar_decimal, plainChar_printFraction micros⟩⟩

theorem plainChar_formatZone {zone : Option Int} : ∀ c ∈ formatZone zone, plainChar c := by
  cases zone with
  | none => exact fun c hc => by cases hc
  | some o =>
    refine List.forall_mem_cons.mpr ⟨?_, plainChar_formatClock⟩
    split <;> rfl

/-- A printed timestamp needs no escapes. -/
theorem plainText_isoformat (d : DateTime) : plainText d.isoformat := by
  unfold plainText DateTime.isoformat
  rw [String.toList_ofList]
  refine List.forall_mem_append.mpr ⟨?_, List.forall_mem_cons.mpr ⟨rfl,
    List.forall_mem_append.mpr ⟨plainChar_formatTime, plainChar_formatZone⟩⟩⟩
  exact List.forall_mem_append.mpr ⟨plainChar_decimal, List.forall_mem_cons.mpr ⟨rfl,
    List.forall_mem_append.mpr ⟨plainChar_decimal, List.forall_mem_cons.mpr ⟨rfl, plainChar_decimal⟩⟩⟩⟩

theorem plainText_of_all {s : String} (h : s.toList.all plainChar = true) : plainText s :=
  List.all_eq_true.mp h

theorem plain_cursorPayload (p : TimelineCursorPosition) :
    ∀ m ∈ cursorPayload p, plainText m.1 ∧ m.2.plain := by
  have hsource : plainText p.source.value := by
    cases p.source <;> exact plainText_of_all rfl
  have hts : plainText "ts" := plainText_of_all rfl
  have hid : plainText "id" := plainText_of_all rfl
  have hsrc : plainText "src" := plainText_of_all rfl
  exact List.forall_mem_cons.mpr ⟨⟨hts, plainText_isoformat _⟩,
    List.forall_mem_cons.mpr ⟨⟨hid, trivial⟩, List.forall_mem_singleton.mpr ⟨hsrc, hsource⟩⟩⟩

theorem fromUTF8_toUTF8 (s : String) :
    String.fromUTF8? ⟨s.toUTF8.data.toList.toArray⟩ = some s := by
  rw [Array.toArray_toList]
  exact dif_pos s.isValidUTF8

theorem tokenPayload_encode (p : TimelineCursorPosition) : tokenPayload (encodeTimelineCursor p) =
    .ok (dictUpdate [] (flatDict (cursorPayload p))) := by
  have hloads : loads (String.ofList (dumpsFlat (cursorPayload p))) = _ :=
    loads_dumpsFlat (List.cons_ne_nil _ _) (plain_cursorPayload p)
  rw [tokenPayload, encodeTimelineCursor, String.toList_ofList, base64Decode_encode]
  simp only [fromUTF8_toUTF8, Option.bind_some, hloads]

/-- Each key of the payload reads back. -/
theorem dictGet_payload (p : TimelineCursorPosition) :
    dictGet (dictUpdate [] (flatDict (cursorPayload p))) "ts" =
        some (.str p.ts.stampUtc.isoformat) ∧
      dictGet (dictUpdate [] (flatDict (cursorPayload p))) "id" = some (.int p.historyId) ∧
      dictGet (dictUpdate [] (flatDict (cursorPayload p))) "src" = some (.str p.source.value) := by
  simp [cursorPayload, flatDict, Flat.json, dictUpdate, dictSet, dictGet]

/-- Decoding undoes encoding; a timestamp without an offset comes back as one of UTC. -/
theorem decode_encode (p : TimelineCursorPosition) :
    decodeTimelineCursor (encodeTimelineCursor p) = .ok p.stampUtc := by
  have hsource : Source.ofValue p.source.value = some p.source := by
    cases p.source <;> rfl
  obtain ⟨hts, hid, hsrc⟩ := dictGet_payload p
  have haware : p.ts.stampUtc.val.utcoffset.isNone = false := rfl
  rw [decodeTimelineCursor, tokenPayload_encode]
  simp only [bind, Except.bind, hts, hid, dictGetStr, hsrc, Option.bind_some, Json.asStr?, hsource,
    fromisoformat_isoformat, haware, Bool.false_eq_true, if_false]
  rfl

end Meho.Topology
