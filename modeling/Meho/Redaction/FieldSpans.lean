import Meho.Redaction.FieldScan
import Meho.Lib.MarkedText

/- What the field scanner yields on every text (redaction/secret_fields.py).

`Match.At` is a match that stands in the text where it says, and `Placed` a field whose
value does, with the letters around it: every field the scanner makes is placed
(`placed_of_mem`). The fields it yields do not overlap and go forward, so the text is
`weave` of the stretches between them and their values, and the scrub only changes the
values. A scrubbed text weighs less where a marker weighs one: scrubbing over and over
comes to rest. Once is not enough, since a hidden value may have held the quote of the
next pair. -/
namespace Meho.Redaction.FieldScan
open Lib Lib.MarkedText
open Runner (isSpace strip)

variable {text : List Char} {a : Nat}

theorem drop_eq_slice {b : Nat} (h : a ≤ b) : text.drop a = slice text a b ++ text.drop b := by
  have hb : text.drop b = (text.drop a).drop (b - a) := by
    rw [List.drop_drop]
    congr 1
    omega
  rw [slice, hb, List.take_append_drop]

theorem slice_append {b c : Nat} (hab : a ≤ b) (hbc : b ≤ c) :
    slice text a b ++ slice text b c = slice text a c := by
  have hb : text.drop b = (text.drop a).drop (b - a) := by
    rw [List.drop_drop]
    congr 1
    omega
  rw [slice, slice, slice, hb, ← List.take_add]
  congr 1
  omega

/-! ## Ends of values -/

variable {n : Nat}

theorem plainValueEnd_spec {quote : Char} (h : plainValueEnd quote text = some n) :
    text[n]? = some quote := by
  fun_induction plainValueEnd quote text generalizing n with
  | case1 => cases h
  | case2 => cases h
  | case3 d rest ih =>
    obtain ⟨k, hk, rfl⟩ := Option.map_eq_some_iff.mp h
    exact ih hk
  | case4 rest hc =>
    cases h
    rfl
  | case5 c rest hc hq ih =>
    obtain ⟨k, hk, rfl⟩ := Option.map_eq_some_iff.mp h
    exact ih hk

theorem escapedValueEnd_spec (h : escapedValueEnd text = some n) : text[n]? = some '\\' := by
  fun_induction escapedValueEnd text generalizing n with
  | case1 => cases h
  | case2 => cases h
  | case3 => cases h; rfl
  | case4 d hd a b rest hpair ih | case5 d hd a b rest hpair ih | case6 d rest hd hshort ih
  | case7 c rest hc ih =>
    obtain ⟨k, hk, rfl⟩ := Option.map_eq_some_iff.mp h
    exact ih hk

/-- A closing bracket stands right before `n`. -/
def BehindCloser (text : List Char) (n : Nat) : Prop :=
  ∃ k c, n = k + 1 ∧ text[k]? = some c ∧ isCloser c = true

variable {c : Char} {rest : List Char}

theorem BehindCloser.of_map {x : Option Nat} (h : x.map (· + 1) = some n)
    (hx : ∀ {k}, x = some k → BehindCloser rest k) : BehindCloser (c :: rest) n := by
  obtain ⟨k, hk, rfl⟩ := Option.map_eq_some_iff.mp h
  obtain ⟨j, d, rfl, hd, hcloser⟩ := hx hk
  exact ⟨j + 1, d, rfl, hd, hcloser⟩

variable {escaped : Bool} {skip : Nat}

theorem bracketEnd_spec {depth : Int} (h : bracketEnd escaped skip depth text = some n) :
    BehindCloser text n := by
  fun_induction bracketEnd escaped skip depth text generalizing n with
  | case1 => cases h
  | case2 skip depth c rest ih | case3 depth c rest after hafter ih
  | case4 depth c rest hafter hb ih => exact .of_map h ih
  | case5 depth c rest hafter hb hcloser hdepth =>
    cases h
    exact ⟨0, c, rfl, rfl, hcloser⟩
  | case6 depth c rest hafter hb hcloser hdepth ih | case7 depth c rest hafter hb hcloser ih =>
      exact .of_map h ih

/-! ## Matches -/

def isQuote (c : Char) : Bool := c = '"' || c = '\''

theorem keyQuote_spec {quote : List Char} (h : keyQuote escaped text = some quote) :
    quote <+: text ∧ if escaped then quote = ['\\', '"'] else ∃ c, quote = [c] ∧ isQuote c := by
  unfold keyQuote at h
  cases escaped with
  | true =>
    obtain ⟨hpre, heq⟩ := Option.ite_none_right_eq_some.mp h
    cases heq
    exact ⟨List.isPrefixOf_iff_prefix.mp hpre, rfl⟩
  | false =>
    cases text with
    | nil => cases h
    | cons c rest =>
      obtain ⟨hc, heq⟩ := Option.ite_none_right_eq_some.mp h
      cases heq
      exact ⟨⟨rest, rfl⟩, c, rfl, by simpa [isQuote] using hc⟩

/-- What an opener is, by its last letter. -/
structure Opens (escaped : Bool) (opener : List Char) (c : Char) : Prop where
  last : ∃ front, opener = front ++ [c]
  bracket : opener = ['\x7b'] ∨ opener = ['['] → isBracket c = true
  quote : ¬ (opener = ['\x7b'] ∨ opener = ['[']) → isQuote c = true
  plain : escaped = false → opener = [c]

theorem valueOpener_spec {opener : List Char} (h : valueOpener escaped text = some opener) :
    opener <+: text ∧ ∃ c, Opens escaped opener c := by
  unfold valueOpener at h
  cases text with
  | nil => cases h
  | cons c rest =>
    simp only [List.head?_cons] at h
    split at h
    · rename_i hc
      cases h
      refine ⟨⟨rest, rfl⟩, c, ⟨[], rfl⟩, fun _ => hc, fun hne => ?_, fun _ => rfl⟩
      exact absurd (by simpa [isBracket] using hc) hne
    · obtain ⟨hpre, hquote⟩ := keyQuote_spec h
      refine ⟨hpre, ?_⟩
      cases escaped with
      | true =>
        cases hquote
        exact ⟨'"', ⟨['\\'], rfl⟩, by decide, by decide, nofun⟩
      | false =>
        obtain ⟨d, rfl, hd⟩ := hquote
        refine ⟨d, ⟨[], rfl⟩, fun hb => ?_, fun _ => hd, fun _ => rfl⟩
        cases hb with
        | inl hb => cases hb; exact absurd hd (by decide)
        | inr hb => cases hb; exact absurd hd (by decide)

theorem memberStart_spec {m : Member} (h : memberStart escaped text = some m) :
    (∃ front, front ++ m.opener <+: text ∧ m.length = front.length + m.opener.length) ∧
      ∃ c, Opens escaped m.opener c := by
  unfold memberStart at h
  cases hquote : keyQuote escaped text with
  | none => simp [hquote] at h
  | some quote =>
    simp only [hquote] at h
    generalize nameLength maxNameUnits (text.drop quote.length) = n at h
    obtain ⟨-, hm⟩ := Option.ite_none_right_eq_some.mp h
    cases hcolon : colonLength (((text.drop quote.length).drop n).drop quote.length) with
    | none =>
      rw [hcolon] at hm
      cases hm
    | some colon =>
      cases hopener : valueOpener escaped
          (((text.drop quote.length).drop n).drop (quote.length + colon)) with
      | none =>
        rw [hcolon] at hm
        simp only [hopener] at hm
        cases hm
      | some opener =>
        simp only [hcolon, hopener] at hm
        cases hm
        obtain ⟨⟨rest, hrest⟩, hopens⟩ := valueOpener_spec hopener
        refine ⟨?_, hopens⟩
        generalize hk : quote.length + n + quote.length + colon = k
        have hdrop : opener ++ rest = text.drop k := by
          rw [hrest, List.drop_drop, List.drop_drop, ← hk]
          congr 1
          omega
        have hfits : k ≤ text.length := by
          obtain ⟨c, ⟨front, hlast⟩, -⟩ := hopens
          have hlen := congrArg List.length hdrop
          rw [hlast, List.length_append, List.length_append, List.length_drop] at hlen
          simp only [List.length_cons] at hlen
          omega
        refine ⟨text.take k, ⟨rest, ?_⟩, by rw [List.length_take_of_le hfits]⟩
        rw [List.append_assoc, hdrop, List.take_append_drop]

/-- The match stands in the text where it says. -/
def Match.At (text : List Char) (m : Match) : Prop :=
  memberStart m.escaped (text.drop m.start) = some m.toMember

variable {m : Match}

theorem Match.At.opened (h : m.At text) :
    0 < m.stop ∧ ∃ c, text[m.stop - 1]? = some c ∧ Opens m.escaped m.opener c := by
  obtain ⟨⟨front, ⟨rest, hrest⟩, hlength⟩, c, hopens⟩ := memberStart_spec h
  obtain ⟨before, hbefore⟩ := hopens.last
  have hstop : m.stop = m.start + (front.length + before.length) + 1 := by
    rw [Match.stop, hlength, hbefore, List.length_append]
    simp only [List.length_cons, List.length_nil]
    omega
  refine ⟨by omega, c, ?_, hopens⟩
  have hat : (text.drop m.start)[front.length + before.length]? = some c := by
    rw [← hrest, hbefore]
    simp
  rw [List.getElem?_drop] at hat
  rw [hstop]
  exact hat

theorem Match.bracketed_iff : m.bracketed = true ↔ m.opener = ['\x7b'] ∨ m.opener = ['['] := by
  simp [Match.bracketed]

variable {start : Nat}

theorem pairStart_at (h : pairStart start text = some m) :
    m.start = start ∧ memberStart m.escaped text = some m.toMember := by
  unfold pairStart at h
  split at h
  · rename_i m' hm
    cases h
    exact ⟨rfl, hm⟩
  · obtain ⟨m', hm, rfl⟩ := Option.map_eq_some_iff.mp h
    exact ⟨rfl, hm⟩

theorem drop_succ_of (h : text.drop n = c :: rest) : text.drop (n + 1) = rest := by
  rw [← List.drop_drop, h]
  rfl

theorem pairStarts_at (h : text.drop start = rest) :
    ∀ m ∈ pairStarts skip start rest, m.At text := by
  fun_induction pairStarts skip start rest with
  | case1 => nofun
  | case2 start skip c rest ih => exact ih (drop_succ_of h)
  | case3 start c rest m hm ih =>
    intro m' hmem
    cases hmem with
    | head =>
      obtain ⟨hstart, hmember⟩ := pairStart_at hm
      rw [← h, ← hstart] at hmember
      exact hmember
    | tail _ htail => exact ih (drop_succ_of h) m' htail
  | case4 start c rest hm ih => exact ih (drop_succ_of h)

theorem siblingFrom_at {want stop : String} {depth index : Nat} (h : text.drop index = rest)
    (hm : siblingFrom want stop escaped skip depth index rest = some m) : m.At text := by
  fun_induction siblingFrom want stop escaped skip depth index rest with
  | case1 => cases hm
  | case2 skip depth index c rest ih => exact ih (drop_succ_of h) hm
  | case3 depth index c rest member key hkey =>
    obtain ⟨found, hfound, rfl⟩ := Option.map_eq_some_iff.mp hm
    obtain ⟨-, hmember⟩ := Option.ite_none_right_eq_some.mp hfound
    rw [Match.At, h]
    exact hmember
  | case4 => cases hm
  | case5 depth index c rest member key hwant hstop after hafter ih
  | case6 depth index c rest member key hwant hstop hafter hbracket ih =>
    exact ih (drop_succ_of h) hm
  | case7 => cases hm
  | case8 depth index c rest member key hwant hstop hafter hbracket hcloser hdepth ih
  | case9 depth index c rest member key hwant hstop hafter hbracket hcloser ih =>
    exact ih (drop_succ_of h) hm

theorem siblingMember_at {want stop : String} {index : Nat}
    (hm : siblingMember want stop escaped text index = some m) : m.At text :=
  siblingFrom_at rfl hm

/-! ## Fields -/

/-- Every letter of a marker weighs with the others one; a bracket outside outweighs the
quoted marker that a value in brackets becomes. -/
def letterCost (c : Char) : Nat := if isBracket c then 10 else 2

def markerScale : Scale Char where
  head := '['
  tail := secretFieldMarker.tail
  cost := letterCost
  head_notin := by decide
  two_le c := by
    unfold letterCost
    split <;> decide

theorem marker_eq : markerScale.marker = secretFieldMarker := by decide

/-- A field whose value stands in the text, with the letters around it. -/
structure Placed (text : List Char) (field : QuotedSecretField) : Prop where
  le : field.start ≤ field.stop
  inside : field.stop ≤ text.length
  value_eq : field.value = slice text field.start field.stop
  quoted : field.bracketed = false → ∃ c, isQuote c ∧ 0 < field.start ∧
    text[field.start - 1]? = some c
  ended : field.bracketed = false → field.stop = text.length ∨
    ∃ c, (isQuote c ∨ c = '\\') ∧ text[field.stop]? = some c
  opened : field.bracketed = true → ∃ c rest, field.value = c :: rest ∧ isBracket c
  closed : field.bracketed = true → field.stop = text.length ∨
    ∃ c, field.value.getLast? = some c ∧ isCloser c
  marked : field.bracketed = true → secretFieldMarker <+: field.value →
    field.value = secretFieldMarker

/-- A value in brackets that starts with the marker is the marker. -/
theorem bracketValueEnd_marker (escaped : Bool) (rest : List Char) :
    bracketValueEnd escaped (secretFieldMarker ++ rest) = some secretFieldMarker.length := by
  cases escaped <;> rfl

theorem slice_eq_take : slice text a (a + n) = (text.drop a).take n := by
  rw [slice, Nat.add_sub_cancel_left]

theorem slice_length_eq_drop : slice text a text.length = text.drop a := by
  rw [slice, ← List.length_drop, List.take_length]

theorem placed_bracketed (hat : text[start]? = some c) (hc : isBracket c = true) (name : String) :
    let stop := ((bracketValueEnd escaped (text.drop start)).map (start + ·)).getD text.length
    Placed text ⟨name, slice text start stop, start, stop, true, escaped⟩ := by
  obtain ⟨hlt, hget⟩ := List.getElem?_eq_some_iff.mp hat
  have hdrop : text.drop start = c :: text.drop (start + 1) := by
    rw [List.drop_eq_getElem_cons hlt, hget]
  cases hend : bracketValueEnd escaped (text.drop start) with
  | none =>
    refine ⟨Nat.le_of_lt hlt, Nat.le_refl _, rfl, nofun, nofun,
      fun _ => ⟨c, text.drop (start + 1), ?_, hc⟩, fun _ => .inl rfl, fun _ hpre => ?_⟩
    · exact slice_length_eq_drop.trans hdrop
    · obtain ⟨rest, hrest⟩ := hpre
      rw [← hrest.trans slice_length_eq_drop, bracketValueEnd_marker] at hend
      cases hend
  | some n =>
    obtain ⟨k, d, rfl, hd, hcloser⟩ := bracketEnd_spec hend
    have hfits : k + 1 ≤ (text.drop start).length := (List.getElem?_eq_some_iff.mp hd).1
    have hvalue : slice text start (start + (k + 1)) = (text.drop start).take (k + 1) :=
      slice_eq_take
    refine ⟨Nat.le_add_right _ _, ?_, rfl, nofun, nofun, fun _ => ⟨c, (text.drop (start + 1)).take k,
      ?_, hc⟩, fun _ => .inr ⟨d, ?_, hcloser⟩, fun _ hpre => ?_⟩
    · rw [List.length_drop] at hfits
      show start + (k + 1) ≤ text.length
      omega
    · rw [hdrop] at hvalue
      exact hvalue
    · refine (congrArg List.getLast? hvalue).trans ?_
      rw [List.getLast?_eq_getElem?, List.length_take_of_le hfits, Nat.add_sub_cancel,
        List.getElem?_take_of_lt (Nat.lt_succ_self k)]
      exact hd
    · obtain ⟨rest, hrest⟩ := hpre.trans (hvalue ▸ List.take_prefix _ _)
      rw [← hrest, bracketValueEnd_marker] at hend
      refine hvalue.trans ?_
      rw [← hrest, ← Option.some.inj hend, List.take_left]

theorem placed_quoted {valueStop : Option Nat} (hstart : 0 < start)
    (hat : text[start - 1]? = some c) (hc : isQuote c = true)
    (hstop : ∀ n, valueStop = some n → ∃ d, (isQuote d ∨ d = '\\') ∧ (text.drop start)[n]? = some d)
    (name : String) :
    let stop := (valueStop.map (start + ·)).getD text.length
    Placed text ⟨name, slice text start stop, start, stop, false, escaped⟩ := by
  have hlt := (List.getElem?_eq_some_iff.mp hat).1
  cases hend : valueStop with
  | none =>
    exact ⟨by show start ≤ text.length; omega, Nat.le_refl _, rfl, fun _ => ⟨c, hc, hstart, hat⟩,
      fun _ => .inl rfl, nofun, nofun, nofun⟩
  | some n =>
    obtain ⟨d, hd, hget⟩ := hstop n hend
    rw [List.getElem?_drop] at hget
    have hfits := (List.getElem?_eq_some_iff.mp hget).1
    exact ⟨Nat.le_add_right _ _, Nat.le_of_lt hfits, rfl, fun _ => ⟨c, hc, hstart, hat⟩,
      fun _ => .inr ⟨d, hd, hget⟩, nofun, nofun, nofun⟩

theorem placed_fieldOf (h : m.At text) (name : String) : Placed text (fieldOf text m name) := by
  obtain ⟨hpos, c, hat, hopens⟩ := h.opened
  unfold fieldOf valueEnd
  cases hb : m.bracketed with
  | true => exact placed_bracketed hat (hopens.bracket (Match.bracketed_iff.mp hb)) name
  | false =>
    have hquote := hopens.quote fun ho => by rw [Match.bracketed_iff.mpr ho] at hb; cases hb
    cases hescaped : m.escaped with
    | true =>
      exact placed_quoted hpos hat hquote
        (fun n hn => ⟨'\\', .inr rfl, escapedValueEnd_spec hn⟩) name
    | false =>
      refine placed_quoted hpos hat hquote (fun n hn => ⟨c, .inl hquote, ?_⟩) name
      have := plainValueEnd_spec hn
      rwa [hopens.plain hescaped] at this

variable {field : QuotedSecretField}

theorem Placed.rename (h : Placed text field) (name : String) : Placed text { field with name } :=
  ⟨h.le, h.inside, h.value_eq, h.quoted, h.ended, h.opened, h.closed, h.marked⟩

theorem placed_pairValueField (h : m.At text) {key : String}
    (hfield : pairValueField text m key = some field) : Placed text field := by
  unfold pairValueField at hfield
  split at hfield
  · split at hfield
    · cases hfield
    · obtain ⟨value, hvalue, rfl⟩ := Option.map_eq_some_iff.mp hfield
      exact placed_fieldOf (siblingMember_at hvalue) _
  · simp only at hfield
    split at hfield
    · cases hfield
    · obtain ⟨name, -, rfl⟩ := Option.map_eq_some_iff.mp hfield
      exact (placed_fieldOf h key).rename name

theorem placed_findFrom {ms : List Match} (h : ∀ m ∈ ms, m.At text) (cursor : Nat) :
    ∀ field ∈ findFrom text cursor ms, Placed text field := by
  induction ms generalizing cursor with
  | nil => nofun
  | cons m ms ih =>
    have hm := h m List.mem_cons_self
    have hms := fun m' hm' => h m' (List.mem_cons_of_mem _ hm')
    intro field hfield
    unfold findFrom at hfield
    split at hfield
    · exact ih hms cursor field hfield
    · simp only at hfield
      split at hfield
      · cases List.mem_append.mp hfield with
        | inl hpair => exact placed_pairValueField hm (Option.mem_toList.mp hpair)
        | inr hrest => exact ih hms cursor field hrest
      · split at hfield
        · cases hfield with
          | head => exact placed_fieldOf hm _
          | tail _ hrest => exact ih hms _ field hrest
        · exact ih hms cursor field hfield

/-! ## The order of the fields -/

/-- Fields that go forward from `cursor` and do not overlap. -/
def Forward : Nat → List QuotedSecretField → Prop
  | _, [] => True
  | cursor, field :: fields => cursor ≤ field.start ∧ Forward field.stop fields

theorem forward_iterFrom (cursor : Nat) (spans : List (Nat × Nat))
    (fields : List QuotedSecretField) : Forward cursor (iterFrom cursor spans fields) := by
  fun_induction iterFrom cursor spans fields with
  | case1 => trivial
  | case2 cursor spans field fields hskip ih => exact ih
  | case3 cursor spans field fields hskip ih =>
    simp only [Bool.or_eq_true, decide_eq_true_eq, not_or] at hskip
    exact ⟨Nat.le_of_not_lt hskip.1, ih⟩

variable {cursor : Nat} {fields : List QuotedSecretField}

theorem iterFrom_subset {spans : List (Nat × Nat)} : iterFrom cursor spans fields ⊆ fields := by
  fun_induction iterFrom cursor spans fields with
  | case1 => exact List.Subset.refl _
  | case2 cursor spans field fields hskip ih => exact fun _ h => List.mem_cons_of_mem _ (ih h)
  | case3 cursor spans field fields hskip ih => exact List.cons_subset_cons _ ih

theorem placed_of_mem (h : field ∈ iterQuotedSecretFields text) : Placed text field :=
  placed_findFrom (pairStarts_at rfl) 0 field ((mem_orderBy _).mp (iterFrom_subset h))

section
variable (h : Forward cursor fields) (hle : ∀ field ∈ fields, field.start ≤ field.stop)
include h hle

theorem forward_le : ∀ field ∈ fields, cursor ≤ field.start := by
  induction fields generalizing cursor with
  | nil => nofun
  | cons field fields ih =>
    intro other hother
    cases hother with
    | head => exact h.1
    | tail _ hrest =>
      have h1 := ih h.2 (fun f hf => hle f (List.mem_cons_of_mem _ hf)) other hrest
      exact Nat.le_trans h.1 (Nat.le_trans (hle field List.mem_cons_self) h1)

theorem forward_pairwise : fields.Pairwise fun f g => f.stop ≤ g.start := by
  induction fields generalizing cursor with
  | nil => exact .nil
  | cons field fields ih =>
    have hrest := fun f hf => hle f (List.mem_cons_of_mem _ hf)
    exact .cons (forward_le h.2 hrest) (ih h.2 hrest)

end

/-! ## The stretches between the fields -/

/-- The text from `cursor` on with `put` in place of every value. -/
def weave (text : List Char) (put : QuotedSecretField → List Char) :
    Nat → List QuotedSecretField → List Char
  | cursor, [] => text.drop cursor
  | cursor, field :: fields =>
    slice text cursor field.start ++ put field ++ weave text put field.stop fields

/-- What the scrub leaves or puts at a field. -/
def scrubbed (field : QuotedSecretField) : List Char :=
  if isEmpty field || isPlaceholder field.value then field.value else replacement field

theorem weave_value (h : Forward cursor fields) (hplaced : ∀ field ∈ fields, Placed text field) :
    weave text (·.value) cursor fields = text.drop cursor := by
  induction fields generalizing cursor with
  | nil => rfl
  | cons field fields ih =>
    have hfield := hplaced field List.mem_cons_self
    rw [weave, ih h.2 fun f hf => hplaced f (List.mem_cons_of_mem _ hf), hfield.value_eq,
      slice_append h.1 hfield.le, ← drop_eq_slice (Nat.le_trans h.1 hfield.le)]

theorem scrubFrom_eq_weave {done : Nat} (hdone : cursor ≤ done) (h : Forward done fields)
    (hplaced : ∀ field ∈ fields, Placed text field) :
    scrubFrom text cursor fields =
      slice text cursor done ++ weave text scrubbed done fields := by
  induction fields generalizing cursor done with
  | nil => exact drop_eq_slice hdone
  | cons field fields ih =>
    have hfield := hplaced field List.mem_cons_self
    have hrest := fun f hf => hplaced f (List.mem_cons_of_mem _ hf)
    unfold scrubFrom weave
    cases hkept : isEmpty field || isPlaceholder field.value with
    | true =>
      have hstop : done ≤ field.stop := Nat.le_trans h.1 hfield.le
      have hput : scrubbed field = slice text field.start field.stop := by
        rw [scrubbed, hkept, if_pos rfl, hfield.value_eq]
      rw [if_pos rfl, ih (Nat.le_trans hdone hstop) h.2 hrest, hput,
        slice_append h.1 hfield.le, ← List.append_assoc, slice_append hdone hstop]
    | false =>
      have hput : scrubbed field = replacement field := by
        rw [scrubbed, hkept, if_neg Bool.false_ne_true]
      have hempty : slice text field.stop field.stop = [] := by
        rw [slice, Nat.sub_self, List.take_zero]
      rw [if_neg Bool.false_ne_true, ih (Nat.le_refl _) h.2 hrest, hput, hempty, List.nil_append,
        ← slice_append hdone h.1]
      simp only [List.append_assoc]

theorem scrub_eq_weave (text : List Char) :
    scrubSecretFieldsInText text = weave text scrubbed 0 (iterQuotedSecretFields text) := by
  have hplaced : ∀ field ∈ iterQuotedSecretFields text, Placed text field :=
    fun _ => placed_of_mem
  have h := scrubFrom_eq_weave (Nat.le_refl 0) (forward_iterFrom _ _ _) hplaced
  have hempty : slice text 0 0 = [] := List.take_zero
  rwa [hempty, List.nil_append] at h

/-! ## The weight of a scrubbed text -/

theorem weight_quote {quote : List Char} (h : quote = ['\\', '"'] ∨ quote = ['"']) :
    markerScale.weight quote ≤ 4 := by
  have hcost : ∀ c ∈ quote, markerScale.cost c ≤ 2 := by
    intro c hc
    obtain rfl | rfl := h
    · simp only [List.mem_cons, List.not_mem_nil, or_false] at hc
      obtain rfl | rfl := hc <;> decide
    · rw [List.mem_singleton.mp hc]
      decide
  have hhead : markerScale.head ∉ quote := by
    obtain rfl | rfl := h <;> decide +kernel
  have hlength : quote.length ≤ 2 := by
    obtain rfl | rfl := h <;> decide +kernel
  have := markerScale.weight_le_length hcost hhead
  omega

theorem weight_marker : markerScale.weight secretFieldMarker = 1 := by
  rw [← marker_eq, markerScale.weight_marker]

theorem weight_replacement_lt (h : Placed text field) (hne : isEmpty field = false)
    (hplain : isPlaceholder field.value = false) :
    markerScale.weight (replacement field) < markerScale.weight field.value := by
  have hmarker : field.value ≠ secretFieldMarker := by
    intro heq
    rw [heq] at hplain
    exact absurd hplain (by decide)
  cases hb : field.bracketed with
  | true =>
    obtain ⟨c, rest, hvalue, hc⟩ := h.opened hb
    -- an opening bracket alone weighs more than the quoted marker
    have hpre : ¬ markerScale.marker <+: c :: rest := by
      rw [marker_eq, ← hvalue]
      exact fun hpre => hmarker (h.marked hb hpre)
    have hcost : markerScale.cost c = 10 := by
      show letterCost c = 10
      rw [letterCost, if_pos hc]
    have hheavy := markerScale.cost_le_weight hpre
    rw [← hvalue, hcost] at hheavy
    have hquote : (if field.escaped then ['\\', '"'] else ['"']) = ['\\', '"'] ∨
        (if field.escaped then ['\\', '"'] else ['"']) = ['"'] := by
      cases field.escaped
      · exact .inr rfl
      · exact .inl rfl
    unfold replacement
    rw [if_pos hb]
    generalize (if field.escaped then ['\\', '"'] else ['"']) = quote at hquote ⊢
    have h1 := weight_quote hquote
    have h2 := markerScale.weight_append_le (quote ++ secretFieldMarker) quote
    have h3 := markerScale.weight_append_le quote secretFieldMarker
    rw [weight_marker] at h3
    show markerScale.weight (quote ++ secretFieldMarker ++ quote) < _
    omega
  | false =>
    have hnil : field.value ≠ [] := by
      intro hnil
      simp [isEmpty, hb, hnil] at hne
    have := markerScale.two_le_weight hnil (marker_eq ▸ hmarker)
    unfold replacement
    rw [if_neg (by rw [hb]; exact Bool.false_ne_true), weight_marker]
    omega

theorem quote_notin_marker (h : isQuote c = true ∨ c = '\\') : c ∉ markerScale.marker := by
  rw [marker_eq]
  obtain h | rfl := h
  · simp only [isQuote, Bool.or_eq_true, decide_eq_true_eq] at h
    obtain rfl | rfl := h <;> decide +kernel
  · decide

theorem Placed.cut_start (h : Placed text field) (hcursor : cursor ≤ field.start) :
    markerScale.Cut (slice text cursor field.start) (field.value ++ text.drop field.stop) := by
  cases hb : field.bracketed with
  | true =>
    obtain ⟨c, rest, hvalue, hc⟩ := h.opened hb
    have htail : c ∉ markerScale.tail := by
      simp only [isBracket, Bool.or_eq_true, decide_eq_true_eq] at hc
      obtain rfl | rfl := hc <;> decide
    exact markerScale.cut_of_head htail (by rw [hvalue]; rfl)
  | false =>
    obtain ⟨c, hc, hpos, hat⟩ := h.quoted hb
    by_cases hempty : cursor = field.start
    · rw [hempty, slice, Nat.sub_self, List.take_zero]
      exact markerScale.cut_nil_left _
    · refine markerScale.cut_of_last (quote_notin_marker (.inl hc)) ?_
      have hlt := (List.getElem?_eq_some_iff.mp hat).1
      have hlength : (slice text cursor field.start).length = field.start - cursor := by
        rw [slice, List.length_take, List.length_drop]
        omega
      rw [List.getLast?_eq_getElem?, hlength, slice, List.getElem?_take_of_lt (by omega),
        List.getElem?_drop, ← hat]
      congr 1
      omega

theorem Placed.cut_stop (h : Placed text field) :
    markerScale.Cut field.value (text.drop field.stop) := by
  have hend : field.stop = text.length → markerScale.Cut field.value (text.drop field.stop) := by
    intro hend
    rw [hend, List.drop_length]
    exact markerScale.cut_nil_right _
  cases hb : field.bracketed with
  | true =>
    obtain hlength | ⟨c, hlast, hc⟩ := h.closed hb
    · exact hend hlength
    · refine markerScale.cut_of_closing ?_ hlast
      simp only [isCloser, Bool.or_eq_true, decide_eq_true_eq] at hc
      obtain rfl | rfl := hc <;> decide
  | false =>
    obtain hlength | ⟨c, hc, hat⟩ := h.ended hb
    · exact hend hlength
    · refine markerScale.cut_of_head (c := c) ?_ (by rw [List.head?_drop]; exact hat)
      exact fun hmem => quote_notin_marker hc (List.mem_cons_of_mem _ hmem)

theorem Placed.weight_drop (h : Placed text field) (hcursor : cursor ≤ field.start) :
    markerScale.weight (text.drop cursor) =
      markerScale.weight (slice text cursor field.start) +
        (markerScale.weight field.value + markerScale.weight (text.drop field.stop)) := by
  rw [drop_eq_slice hcursor, drop_eq_slice h.le, ← h.value_eq,
    markerScale.weight_append (h.cut_start hcursor), markerScale.weight_append h.cut_stop]

theorem weight_weave (h : Forward cursor fields) (hplaced : ∀ field ∈ fields, Placed text field) :
    weave text scrubbed cursor fields = text.drop cursor ∨
      markerScale.weight (weave text scrubbed cursor fields) <
        markerScale.weight (text.drop cursor) := by
  induction fields generalizing cursor with
  | nil => exact .inl rfl
  | cons field fields ih =>
    have hfield := hplaced field List.mem_cons_self
    have hrest := ih h.2 fun f hf => hplaced f (List.mem_cons_of_mem _ hf)
    -- joining pieces never makes the text heavier than its parts
    have hjoin : markerScale.weight (weave text scrubbed cursor (field :: fields)) ≤
        markerScale.weight (slice text cursor field.start) +
          (markerScale.weight (scrubbed field) +
            markerScale.weight (weave text scrubbed field.stop fields)) := by
      have h1 := markerScale.weight_append_le
        (slice text cursor field.start ++ scrubbed field) (weave text scrubbed field.stop fields)
      have h2 := markerScale.weight_append_le (slice text cursor field.start) (scrubbed field)
      show markerScale.weight (_ ++ _ ++ _) ≤ _
      omega
    have hwhole := hfield.weight_drop h.1
    -- a field that is kept changes nothing; one that is replaced becomes lighter
    cases hkept : isEmpty field || isPlaceholder field.value with
    | true =>
      have hput : scrubbed field = field.value := by rw [scrubbed, hkept, if_pos rfl]
      obtain hsame | hlighter := hrest
      · refine .inl ?_
        rw [weave, hsame, hput, hfield.value_eq, slice_append h.1 hfield.le,
          ← drop_eq_slice (Nat.le_trans h.1 hfield.le)]
      · rw [hput] at hjoin
        exact .inr (by omega)
    | false =>
      have hput : scrubbed field = replacement field := by
        rw [scrubbed, hkept, if_neg Bool.false_ne_true]
      obtain ⟨hne, hplain⟩ := Bool.or_eq_false_iff.mp hkept
      have hlt := weight_replacement_lt hfield hne hplain
      have hle : markerScale.weight (weave text scrubbed field.stop fields) ≤
          markerScale.weight (text.drop field.stop) := by
        obtain hsame | hlighter := hrest
        · exact Nat.le_of_eq (congrArg _ hsame)
        · omega
      rw [hput] at hjoin
      exact .inr (by omega)

/-- A scrub that changes a text makes it lighter. -/
theorem weight_scrub (text : List Char) :
    scrubSecretFieldsInText text = text ∨
      markerScale.weight (scrubSecretFieldsInText text) < markerScale.weight text := by
  rw [scrub_eq_weave]
  exact weight_weave (forward_iterFrom _ _ _) fun _ => placed_of_mem

/-- The fields of a text lie in it, go forward and do not overlap, the scrub changes only their
values, and scrubbing over and over comes to rest. -/
theorem scanner_well_formed (text : List Char) :
    let fields := iterQuotedSecretFields text
    (∀ field ∈ fields, field.start ≤ field.stop ∧ field.stop ≤ text.length ∧
      field.value = slice text field.start field.stop) ∧
    (fields.Pairwise fun f g => f.stop ≤ g.start) ∧
    text = weave text (·.value) 0 fields ∧
    scrubSecretFieldsInText text = weave text scrubbed 0 fields ∧
    ∃ n, scrubSecretFieldsInText (scrubSecretFieldsInText^[n] text) =
      scrubSecretFieldsInText^[n] text := by
  have hforward : Forward 0 (iterQuotedSecretFields text) := forward_iterFrom _ _ _
  refine ⟨?_, ?_, ?_, scrub_eq_weave text, comes_to_rest _ weight_scrub text⟩
  · intro field hfield
    have hplaced := placed_of_mem hfield
    exact ⟨hplaced.le, hplaced.inside, hplaced.value_eq⟩
  · exact forward_pairwise hforward fun field hfield => (placed_of_mem hfield).le
  · exact (weave_value hforward fun _ => placed_of_mem).symm

/-- Scrubbing once is not enough: the search for pairs passes over the quote that ends the hidden
value, which is also the quote of the next name. -/
theorem scrub_not_idempotent :
    let text := "\"password\":\"'k':\"token\":\"y\"".toList
    scrubSecretFieldsInText text = "\"password\":\"[REDACTED:param_name]\"token\":\"y\"".toList ∧
    scrubSecretFieldsInText (scrubSecretFieldsInText text) =
      "\"password\":\"[REDACTED:param_name]\"token\":\"[REDACTED:param_name]\"".toList := by
  have hfirst : scrubSecretFieldsInText "\"password\":\"'k':\"token\":\"y\"".toList =
      "\"password\":\"[REDACTED:param_name]\"token\":\"y\"".toList := by
    decide +kernel
  refine ⟨hfirst, ?_⟩
  rw [hfirst]
  decide +kernel

end Meho.Redaction.FieldScan
