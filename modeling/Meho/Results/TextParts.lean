import Mathlib.Algebra.GroupWithZero.Nat
import Meho.Json
import Meho.Lib.Bisect

/- Reading a long text in parts (operations/result_query.py `_text_part`).

One read returns the longest part of the text from an offset on that its limit
and the byte budget allow. A caller reads on at `offset + returned_chars` while
the answer says it was truncated.

What is proved: `textPart_ok` and `textPart_error`, what one read returns and
when it refuses; `readText_ends`, whatever limits the reads pass, the walk ends,
and unless it was refused its parts are the text from the start offset. The size
of a text in JSON is a parameter, the encoder's (`TextEncoder`).

Correspondence: textPart = `_text_part`; readText = the caller's loop over it. -/
namespace Meho.Results.TextParts
open Meho.Lib

/-- What `msgspec.json.encode` takes for a text: two quotes, and some bytes for a character. -/
structure TextEncoder where
  charBytes : Char → Nat
  charBytes_pos : ∀ c, 1 ≤ charBytes c

def TextEncoder.encodedBytes (json : TextEncoder) (text : List Char) : Nat :=
  (text.map json.charBytes).sum + 2

/-- `ResultQueryOutputTooLargeError`. -/
structure OutputTooLarge where
  handleId : Nat
  outputBytes : Nat
  maxBytes : Nat
  remediation : String
  deriving DecidableEq

def pathRemediation : String :=
  "Point `path` at a smaller part of the document, or page an array value with a smaller `limit`."

structure TextPart where
  limit : Nat
  rows : List Json
  value : List Char
  returnedRows : Nat
  totalRows : Nat
  storedRows : Nat
  returnedChars : Nat
  totalChars : Nat
  truncated : Bool

/-- The answer that carries `part`. -/
def answer (text : List Char) (offset cap : Nat) (part : List Char) : TextPart where
  limit := cap
  rows := []
  value := part
  returnedRows := 1
  totalRows := 1
  storedRows := 1
  returnedChars := part.length
  totalChars := text.length
  truncated := decide (offset + part.length < text.length)

section
variable (json : TextEncoder) (text : List Char) (maxBytes handleId : Nat)

def textPart (offset : Nat) (limit : Option Nat) : Except OutputTooLarge TextPart :=
  let cap := limit.getD maxBytes
  let part := (text.drop offset).take cap
  let encodedBytes := json.encodedBytes part
  if maxBytes < encodedBytes then
    let inBudget := fun n => decide (json.encodedBytes (part.take n) ≤ maxBytes)
    let fits := Bisect.bisect inBudget 0 part.length
    if fits = 0 then .error ⟨handleId, encodedBytes, maxBytes, pathRemediation⟩
    else .ok (answer text offset cap (part.take fits))
  else .ok (answer text offset cap part)

/-- The reads of a caller that follows `truncated`, with `limits k` the limit of read `k`: the
parts, and the refusal if one came. `none` when the steps ran out. -/
def readText (limits : Nat → Option Nat) :
    Nat → Nat → Nat → Option (List TextPart × Option OutputTooLarge)
  | 0, _, _ => none
  | steps + 1, read, offset =>
    match textPart json text maxBytes handleId offset (limits read) with
    | .error refusal => some ([], some refusal)
    | .ok part =>
      if part.truncated then
        (readText limits steps (read + 1) (offset + part.returnedChars)).map fun rest =>
          (part :: rest.1, rest.2)
      else some ([part], none)

/-- `part` is the longest part at `offset` that the limit and the budget allow. -/
structure LongestPart (offset : Nat) (limit : Option Nat) (part : TextPart) : Prop where
  chars : part.returnedChars = part.value.length
  at_offset : part.value <+: text.drop offset
  in_budget : json.encodedBytes part.value ≤ maxBytes
  in_limit : ∀ n, limit = some n → part.value.length ≤ n
  longest : ∀ other, other <+: text.drop offset → json.encodedBytes other ≤ maxBytes →
    (∀ n, limit = some n → other.length ≤ n) → other.length ≤ part.value.length
  truncated : part.truncated = false ↔ text.length ≤ offset + part.value.length

/-- The next character alone is over the budget. -/
def NextTooLarge (offset : Nat) : Prop :=
  ∃ c, text[offset]? = some c ∧ maxBytes < json.encodedBytes [c]

/-- The walk from read `read` at `offset`: its parts, and the refusal it may end in. -/
inductive Walk (limits : Nat → Option Nat) :
    Nat → Nat → List TextPart → Option OutputTooLarge → Prop where
  | refused {read offset : Nat} {refusal : OutputTooLarge}
      (h : NextTooLarge json text maxBytes offset ∨ text.length ≤ offset ∧ maxBytes < 2) :
    Walk limits read offset [] (some refusal)
  | last {read offset : Nat} {part : TextPart}
      (h : LongestPart json text maxBytes offset (limits read) part)
      (hend : part.truncated = false) : Walk limits read offset [part] none
  | more {read offset : Nat} {part : TextPart} {parts : List TextPart}
      {ending : Option OutputTooLarge}
      (h : LongestPart json text maxBytes offset (limits read) part)
      (hmore : part.truncated = true)
      (hrest : Walk limits (read + 1) (offset + part.returnedChars) parts ending) :
    Walk limits read offset (part :: parts) ending
end

/-! ## One read -/

section
variable {json : TextEncoder} {text a b : List Char} {maxBytes handleId offset : Nat}
  {limit : Option Nat} {part : TextPart} {refusal : OutputTooLarge}

theorem encodedBytes_mono (h : a <+: b) : json.encodedBytes a ≤ json.encodedBytes b := by
  obtain ⟨rest, rfl⟩ := h
  simp only [TextEncoder.encodedBytes, List.map_append, List.sum_append]
  omega

theorem length_lt_encodedBytes (json : TextEncoder) (text : List Char) :
    text.length < json.encodedBytes text := by
  unfold TextEncoder.encodedBytes
  induction text with
  | nil => simp
  | cons c text ih =>
    have := json.charBytes_pos c
    simp only [List.length_cons, List.map_cons, List.sum_cons]
    omega

/-- What the budget and the limit allow is no longer than the cap. -/
theorem length_le_cap (hbudget : json.encodedBytes a ≤ maxBytes)
    (hlimit : ∀ n, limit = some n → a.length ≤ n) : a.length ≤ limit.getD maxBytes := by
  cases limit with
  | none =>
    have := length_lt_encodedBytes json a
    simp only [Option.getD_none]
    omega
  | some n => exact hlimit n rfl

theorem bisect_part (hover : maxBytes < json.encodedBytes a) {n : Nat}
    (hn : json.encodedBytes (a.take n) ≤ maxBytes) :
    n ≤ Bisect.bisect (fun n => decide (json.encodedBytes (a.take n) ≤ maxBytes)) 0 a.length := by
  apply Bisect.bisect_largest
  · intro m n hle hpass
    have hstart : a.take m <+: a.take n := List.take_prefix_take_left hle
    exact decide_eq_true (Nat.le_trans (encodedBytes_mono hstart) (of_decide_eq_true hpass))
  · exact decide_eq_true hn
  · by_contra hlong
    rw [List.take_of_length_le (by omega)] at hn
    omega

/-- What the budget and the limit allow is a prefix of what the read cuts out of the text. -/
theorem prefix_part (hstart : a <+: text.drop offset) (hbudget : json.encodedBytes a ≤ maxBytes)
    (hlimit : ∀ n, limit = some n → a.length ≤ n) :
    a <+: (text.drop offset).take (limit.getD maxBytes) :=
  List.prefix_take_iff.mpr ⟨hstart, length_le_cap hbudget hlimit⟩

/-- A part of what the read cuts out is the longest one if nothing in budget is longer. -/
theorem LongestPart.of_answer {part : List Char}
    (hpart : part <+: (text.drop offset).take (limit.getD maxBytes))
    (hbudget : json.encodedBytes part ≤ maxBytes)
    (hlongest : ∀ other, other <+: (text.drop offset).take (limit.getD maxBytes) →
      json.encodedBytes other ≤ maxBytes → other.length ≤ part.length) :
    LongestPart json text maxBytes offset limit
      (answer text offset (limit.getD maxBytes) part) where
  chars := rfl
  at_offset := hpart.trans <| List.take_prefix _ _
  in_budget := hbudget
  in_limit n hn := by
    have hle := hpart.length_le
    rw [hn, Option.getD_some, List.length_take] at hle
    exact Nat.le_trans hle (Nat.min_le_left _ _)
  longest other hstart hfits hlimit := hlongest other (prefix_part hstart hfits hlimit) hfits
  truncated := by simp [answer]

/-- **One read returns the longest part that the limit and the budget allow.** -/
theorem textPart_ok (h : textPart json text maxBytes handleId offset limit = .ok part) :
    LongestPart json text maxBytes offset limit part := by
  simp only [textPart] at h
  split at h
  · rename_i hover
    split at h
    · cases h
    · rename_i hsome
      cases h
      apply LongestPart.of_answer <| List.take_prefix _ _
      · exact of_decide_eq_true (Bisect.bisect_passes.resolve_left hsome)
      · intro other hstart hfits
        have hother := List.prefix_iff_eq_take.mp hstart
        rw [hother] at hfits
        rw [List.length_take]
        exact Nat.le_min.mpr ⟨bisect_part hover hfits, hstart.length_le⟩
  · rename_i hfits
    cases h
    exact .of_answer List.prefix_rfl (Nat.le_of_not_lt hfits) fun other hstart _ =>
      hstart.length_le

theorem cap_pos (hlimit : ∀ n, limit = some n → 1 ≤ n) (hbudget : 1 ≤ maxBytes) :
    1 ≤ limit.getD maxBytes := by
  cases limit with
  | none => exact hbudget
  | some n => exact hlimit n rfl

/-- A read is refused only if the next character does not fit, or not even the quotes do. -/
theorem textPart_error (h : textPart json text maxBytes handleId offset limit = .error refusal)
    (hlimit : ∀ n, limit = some n → 1 ≤ n) :
    NextTooLarge json text maxBytes offset ∨ text.length ≤ offset ∧ maxBytes < 2 := by
  simp only [textPart] at h
  split at h
  · rename_i hover
    split at h
    · rename_i hnone
      cases hnext : text[offset]? with
      | none =>
        have hend := List.getElem?_eq_none_iff.mp hnext
        rw [List.drop_eq_nil_of_le hend, List.take_nil] at hover
        exact .inr ⟨hend, hover⟩
      | some c =>
        refine .inl ⟨c, hnext, ?_⟩
        by_contra hfits
        have hone : ((text.drop offset).take (limit.getD maxBytes)).take 1 = [c] := by
          have hsize := length_lt_encodedBytes json [c]
          have hcap : 1 ≤ limit.getD maxBytes := cap_pos hlimit (by omega)
          rw [List.take_take, Nat.min_eq_left hcap, List.take_one, List.head?_drop, hnext]
          rfl
        have hle := bisect_part hover (n := 1) (by rw [hone]; omega)
        omega
    · cases h
  · cases h

/-- A read that was cut has read something. -/
theorem textPart_progress (h : textPart json text maxBytes handleId offset limit = .ok part)
    (hlimit : ∀ n, limit = some n → 1 ≤ n) (hmore : part.truncated = true) :
    1 ≤ part.returnedChars ∧ offset + part.returnedChars < text.length := by
  simp only [textPart] at h
  generalize hcut : (text.drop offset).take (limit.getD maxBytes) = cut at h
  split at h
  · split at h
    · cases h
    · rename_i hsome
      have hmem := Bisect.bisect_mem (fun n =>
        decide (json.encodedBytes (cut.take n) ≤ maxBytes)) (Nat.zero_le cut.length)
      cases h
      refine ⟨?_, of_decide_eq_true hmore⟩
      simp only [answer, List.length_take]
      omega
  · rename_i hfits
    cases h
    have hchars := of_decide_eq_true hmore
    refine ⟨?_, hchars⟩
    have hsize := length_lt_encodedBytes json cut
    have hcap : 1 ≤ limit.getD maxBytes := cap_pos hlimit (by omega)
    have hlength := congrArg List.length hcut
    rw [List.length_take, List.length_drop] at hlength
    simp only [answer] at hchars ⊢
    omega
end

/-! ## The walk -/

section
variable {json : TextEncoder} {text : List Char} {maxBytes handleId : Nat}
  {limits : Nat → Option Nat}

variable (json text maxBytes handleId) in
theorem readText_ends (hlimits : ∀ k n, limits k = some n → 1 ≤ n) :
    ∀ steps read offset, text.length - offset < steps →
      ∃ parts ending, readText json text maxBytes handleId limits steps read offset =
        some (parts, ending) ∧ Walk json text maxBytes limits read offset parts ending
  | 0, _, _, h => absurd h (Nat.not_lt_zero _)
  | steps + 1, read, offset, h => by
    rw [readText]
    split
    · rename_i refusal herror
      exact ⟨[], _, rfl, .refused (textPart_error herror (hlimits read))⟩
    · rename_i part hok
      have hlongest := textPart_ok hok
      split
      · rename_i hmore
        obtain ⟨hprogress, hinside⟩ := textPart_progress hok (hlimits read) hmore
        obtain ⟨parts, ending, hread, hwalk⟩ := readText_ends hlimits steps (read + 1)
          (offset + part.returnedChars) (by omega)
        exact ⟨part :: parts, ending, by rw [hread]; rfl, .more hlongest hmore hwalk⟩
      · rename_i hlast
        exact ⟨[part], none, rfl, .last hlongest (by simpa using hlast)⟩

/-- The parts of a walk that was not refused are the text from its offset on. -/
theorem Walk.flatten {read offset : Nat} {parts : List TextPart} {ending : Option OutputTooLarge}
    (h : Walk json text maxBytes limits read offset parts ending) (hend : ending = none) :
    parts.flatMap (·.value) = text.drop offset := by
  induction h with
  | refused _ => cases hend
  | last h hlast =>
    rename_i part
    have hlength := h.truncated.mp hlast
    rw [List.flatMap_singleton]
    exact h.at_offset.eq_of_length_le (by rw [List.length_drop]; omega)
  | more h _ _ ih =>
    rw [List.flatMap_cons, ih hend, h.chars, ← List.drop_drop]
    obtain ⟨rest, hrest⟩ := h.at_offset
    rw [← hrest, List.drop_left]

/-- **Reading a text in parts gives back the text.** Whatever limits the reads pass, the walk
from an offset ends. It ends in a refusal where the next character does not fit the budget,
or the budget is below the two quotes; else its parts are the text from the offset on. -/
theorem reading_gives_text (json : TextEncoder) (text : List Char) (maxBytes handleId : Nat)
    (limits : Nat → Option Nat) (hlimits : ∀ k n, limits k = some n → 1 ≤ n) (offset : Nat) :
    ∃ steps parts ending,
      readText json text maxBytes handleId limits steps 0 offset = some (parts, ending) ∧
      Walk json text maxBytes limits 0 offset parts ending ∧
      (ending = none → parts.flatMap (·.value) = text.drop offset) := by
  obtain ⟨parts, ending, hread, hwalk⟩ := readText_ends json text maxBytes handleId hlimits
    (text.length - offset + 1) 0 offset (Nat.lt_succ_self _)
  exact ⟨_, parts, ending, hread, hwalk, hwalk.flatten⟩
end

/-- The bytes of a character in `msgspec`'s JSON text. -/
def msgspecBytes (c : Char) : Nat :=
  if c = '"' ∨ c = '\\' ∨ c ∈ ['\n', '\t', '\r', '\x08', '\x0c'] then 2
  else if c.val < 0x20 then 6 else c.utf8Size

def msgspec : TextEncoder where
  charBytes := msgspecBytes
  charBytes_pos c := by
    unfold msgspecBytes
    split
    · omega
    · split
      · omega
      · exact c.utf8Size_pos

theorem reading_gives_text_quoted :
    ∃ steps parts ending,
      readText msgspec ['a', '"', 'b'] 4 7 (fun _ => none) steps 0 0 = some (parts, ending) ∧
      Walk msgspec ['a', '"', 'b'] 4 (fun _ => none) 0 0 parts ending ∧
      (ending = none → parts.flatMap (·.value) = ['a', '"', 'b'].drop 0) :=
  reading_gives_text msgspec ['a', '"', 'b'] 4 7 (fun _ => none) (fun _ _ h => nomatch h) 0

/-- A budget below the two quotes is refused at the end of a text too: no character follows. -/
theorem refused_at_end :
    textPart msgspec ['o', 'k'] 1 7 2 none = .error ⟨7, 2, 1, pathRemediation⟩ ∧
      ¬ NextTooLarge msgspec ['o', 'k'] 1 2 := by
  refine ⟨?_, ?_⟩
  · simp [textPart, TextEncoder.encodedBytes, Bisect.bisect]
  · rintro ⟨c, hc, -⟩
    cases hc

end Meho.Results.TextParts
