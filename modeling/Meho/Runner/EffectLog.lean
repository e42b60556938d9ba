import Mathlib.Data.List.Sort
import Meho.Lib.HashChain
import Meho.Runner.CanonicalText

/- The runner's log of remote writes (runner/effect_audit.py).

The log is a directory: `head.json` with the last number and the last digest,
and one file for each record that is not yet forwarded. A file's name is the
record's number in twelve digits, and `unforwarded` reads the files in the
order of their names. That is the order of the numbers as long as they fit
(`recordName_le`).

A record is chained to the one before it by its digest, so a directory's
records are a chain of `Meho.Lib.Chaining` (`effectChain`). When no two texts
have one digest, a digest determines its record (`effectChain_binding`): the
canonical text of a body can be read back, and the digest in front of it ends
at the first brace.

Correspondence: `EffectAuditChain` ↔ `ChainDir`, `_record_path` ↔
`recordName`; what is not listed keeps its name. Files are replaced as a
whole, so none is ever read half written. -/
namespace Meho.Runner
open Meho.Lib

/-! ## Records -/

def genesisPrevHash : String := String.ofList (List.replicate 64 '0')

/-- The head of a chain that has no record. -/
def genesisHead : ChainHead String := ⟨-1, genesisPrevHash⟩

inductive EffectPhase where
  | intent
  | outcome
  deriving DecidableEq, Repr

def EffectPhase.text : EffectPhase → String
  | .intent => "intent"
  | .outcome => "outcome"

/-- What is hashed of a record. -/
structure RecordBody where
  runnerId : String
  seq : Int
  phase : EffectPhase
  commandId : String
  opId : String
  paramsHash : String
  signature : Option String
  targetScope : String
  outcome : Option String
  recordedAt : String
  deriving DecidableEq, Repr

/-- A record of the log, with its hashes. -/
structure EffectAuditRecord extends RecordBody where
  prevHash : String
  recordHash : String
  deriving DecidableEq, Repr

/-- A text or null. -/
def jsonText : Option String → Json
  | none => .null
  | some s => .str s

/-- The mapping that is printed, in the order of the source. -/
def RecordBody.fields (b : RecordBody) : Dict :=
  [("runner_id", .str b.runnerId), ("seq", .int b.seq), ("phase", .str b.phase.text),
    ("command_id", .str b.commandId), ("op_id", .str b.opId), ("params_hash", .str b.paramsHash),
    ("signature", jsonText b.signature), ("target_scope", .str b.targetScope),
    ("outcome", jsonText b.outcome), ("recorded_at", .str b.recordedAt)]

/-- The mapping with sorted keys and tight separators. -/
def canonicalRecordBody (b : RecordBody) : List Char := canonicalParams b.fields

/-- `sha256(prev_hash + canonical_body)`. -/
def computeRecordHash (C : Crypto) (prevHash : String) (canonicalBody : List Char) : String :=
  C.sha256 (prevHash.toList ++ canonicalBody)

/-- The records as a hash chain. -/
def effectChain (C : Crypto) : Chaining EffectAuditRecord String RecordBody where
  seq r := r.seq
  prev r := r.prevHash
  own r := r.recordHash
  body r := r.toRecordBody
  derive prevHash b := computeRecordHash C prevHash (canonicalRecordBody b)

/-! ## A digest determines its record -/

/-- No two texts have one digest, and a digest is hex text. -/
structure CollisionFree (C : Crypto) : Prop where
  injective : Function.Injective C.sha256
  noBrace : ∀ text, '\x7b' ∉ (C.sha256 text).toList

theorem jsonText_inj {o o' : Option String} (h : jsonText o = jsonText o') : o = o' := by
  cases o <;> cases o' <;> simp_all [jsonText]

theorem EffectPhase.text_inj {p p' : EffectPhase} (h : p.text = p'.text) : p = p' := by
  cases p <;> cases p' <;> first | rfl | (revert h; decide)

theorem sortKeys_jsonText (o : Option String) : sortKeys (jsonText o) = jsonText o := by
  cases o <;> rfl

theorem sortFields_fields (b : RecordBody) : sortFields b.fields = b.fields := by
  simp [RecordBody.fields, sortFields, sortKeys, sortKeys_jsonText]

theorem wellFormed_fields (b : RecordBody) : wellFormedFields b.fields = true := by
  have htext : ∀ o, wellFormed (jsonText o) = true := by
    intro o
    cases o <;> rfl
  simp [RecordBody.fields, wellFormedFields, wellFormed, htext]

/-- Every field can be read back from the canonical text. -/
theorem canonicalRecordBody_inj {b b' : RecordBody}
    (h : canonicalRecordBody b = canonicalRecordBody b') : b = b' := by
  have hsorted := canonicalParams_inj (wellFormed_fields b) (wellFormed_fields b') h
  have hmem : ∀ e, e ∈ b.fields → e ∈ b'.fields := by
    intro e he
    unfold sortedParams at hsorted
    simp only [sortKeys, sortFields_fields, Json.obj.injEq] at hsorted
    have hperm := List.mergeSort_perm b.fields fun a b => decide (a.1 ≤ b.1)
    rw [hsorted] at hperm
    exact List.mem_mergeSort.mp (hperm.mem_iff.mpr he)
  have hrunner := hmem ("runner_id", .str b.runnerId) (by simp [RecordBody.fields])
  have hseq := hmem ("seq", .int b.seq) (by simp [RecordBody.fields])
  have hphase := hmem ("phase", .str b.phase.text) (by simp [RecordBody.fields])
  have hcommand := hmem ("command_id", .str b.commandId) (by simp [RecordBody.fields])
  have hop := hmem ("op_id", .str b.opId) (by simp [RecordBody.fields])
  have hparams := hmem ("params_hash", .str b.paramsHash) (by simp [RecordBody.fields])
  have hsignature := hmem ("signature", jsonText b.signature) (by simp [RecordBody.fields])
  have hscope := hmem ("target_scope", .str b.targetScope) (by simp [RecordBody.fields])
  have houtcome := hmem ("outcome", jsonText b.outcome) (by simp [RecordBody.fields])
  have hrecorded := hmem ("recorded_at", .str b.recordedAt) (by simp [RecordBody.fields])
  simp [RecordBody.fields] at hrunner hseq hphase hcommand hop
  simp [RecordBody.fields] at hparams hsignature hscope houtcome hrecorded
  cases b
  cases b'
  simp only at *
  obtain rfl := EffectPhase.text_inj hphase
  obtain rfl := jsonText_inj hsignature
  obtain rfl := jsonText_inj houtcome
  subst hrunner hseq hcommand hop hparams hscope hrecorded
  rfl

/-- The canonical text begins with a brace. -/
theorem canonicalRecordBody_eq_cons (b : RecordBody) :
    ∃ rest, canonicalRecordBody b = '\x7b' :: rest := ⟨_, rfl⟩

/-- What stands before the first brace is read off in one way. -/
theorem brace_append_inj {s t x y : List Char} (hs : '\x7b' ∉ s) (ht : '\x7b' ∉ t)
    (h : s ++ '\x7b' :: x = t ++ '\x7b' :: y) : s = t ∧ x = y := by
  have hread : ∀ {s x : List Char}, '\x7b' ∉ s →
      (s ++ '\x7b' :: x).takeWhile (· ≠ '\x7b') = s := by
    intro s x hs
    rw [List.takeWhile_append_of_pos]
    · simp
    · intro c hc
      have hne : c ≠ '\x7b' := fun heq => hs (heq ▸ hc)
      simpa using hne
  have hst : s = t := by
    rw [← hread (x := x) hs, ← hread (x := y) ht, h]
  subst hst
  exact ⟨rfl, (List.cons.inj (List.append_cancel_left h)).2⟩

theorem effectChain_binding {C : Crypto} (hC : CollisionFree C) :
    (effectChain C).Binding fun d => '\x7b' ∉ d.toList where
  digest_derive d b := hC.noBrace _
  derive_inj d d' b b' hd hd' h := by
    have htext := hC.injective h
    obtain ⟨rest, hrest⟩ := canonicalRecordBody_eq_cons b
    obtain ⟨rest', hrest'⟩ := canonicalRecordBody_eq_cons b'
    rw [hrest, hrest'] at htext
    obtain ⟨hdigest, htail⟩ := brace_append_inj hd hd' htext
    refine ⟨String.toList_injective hdigest, ?_⟩
    apply canonicalRecordBody_inj
    rw [hrest, hrest', htail]
  seq_body r r' h := by
    change r.toRecordBody.seq = r'.toRecordBody.seq
    change r.toRecordBody = r'.toRecordBody at h
    rw [h]
  ext r r' hprev hbody hown := by
    obtain ⟨b, prevHash, recordHash⟩ := r
    obtain ⟨b', prevHash', recordHash'⟩ := r'
    change b = b' at hbody
    change prevHash = prevHash' at hprev
    change recordHash = recordHash' at hown
    rw [hbody, hprev, hown]

/-- A digest that spells out its text in hex. -/
def hexCrypto : Crypto where
  sha256 text := String.ofList (text.flatMap fun c =>
    hex4 (c.toNat / 0x10000) ++ hex4 (c.toNat % 0x10000))
  SigningKey := Unit
  VerifyKey := Unit
  sign := fun _ text => String.ofList text
  verify := fun _ signature text => signature = String.ofList text
  readSigningKey := fun _ => .ok ()
  readVerifyKey := fun _ => .ok ()

theorem hex4_noBrace (n : Nat) : '\x7b' ∉ hex4 n := by
  have hdigit : ∀ m, m < 16 → Nat.digitChar m ≠ '\x7b' := by decide
  intro h
  simp only [hex4, List.mem_cons, List.not_mem_nil, or_false] at h
  rcases h with h | h | h | h <;> exact hdigit _ (Nat.mod_lt _ (by decide)) h.symm

theorem hexCrypto_collisionFree : CollisionFree hexCrypto where
  noBrace text := by
    simp only [hexCrypto, String.toList_ofList, List.mem_flatMap, List.mem_append, not_exists,
      not_and, not_or]
    exact fun c _ => ⟨hex4_noBrace _, hex4_noBrace _⟩
  injective := by
    intro text text' h
    have htext := String.ofList_injective h
    clear h
    induction text generalizing text' with
    | nil =>
      cases text' with
      | nil => rfl
      | cons d text' => simp [hex4] at htext
    | cons c text ih =>
      cases text' with
      | nil => simp [hex4] at htext
      | cons d text' =>
        -- the two halves of the first character, then the rest
        have hc := toNat_lt c
        have hd := toNat_lt d
        simp only [List.flatMap_cons, List.append_assoc] at htext
        have hhigh := congrArg readHex4 htext
        rw [readHex4_hex4 (by omega), readHex4_hex4 (by omega)] at hhigh
        simp only [Option.some.injEq, Prod.mk.injEq] at hhigh
        have hlow := congrArg readHex4 hhigh.2
        rw [readHex4_hex4 (by omega), readHex4_hex4 (by omega)] at hlow
        simp only [Option.some.injEq, Prod.mk.injEq] at hlow
        have hcd : c = d := Char.toNat_inj.mp (by omega)
        rw [hcd, ih hlow.2]

theorem genesis_noBrace : '\x7b' ∉ genesisHead.lastHash.toList := by
  unfold genesisHead genesisPrevHash
  rw [String.toList_ofList]
  intro h
  have hzero := List.eq_of_mem_replicate h
  revert hzero
  decide

/-! ## The directory -/

/-- What a call of `_append` records, with the runner's clock. -/
structure Effect where
  phase : EffectPhase
  commandId : String
  opId : String
  paramsHash : String
  signature : Option String
  targetScope : String
  outcome : Option String
  recordedAt : String

def recordIntent (commandId opId paramsHash : String) (signature : Option String)
    (targetScope recordedAt : String) : Effect :=
  ⟨.intent, commandId, opId, paramsHash, signature, targetScope, none, recordedAt⟩

def recordOutcome (commandId opId paramsHash : String) (signature : Option String)
    (targetScope outcome recordedAt : String) : Effect :=
  ⟨.outcome, commandId, opId, paramsHash, signature, targetScope, some outcome, recordedAt⟩

/-- `head.json`, if it is there, and the record files. -/
structure ChainDir where
  head : Option (ChainHead String)
  files : List EffectAuditRecord

namespace ChainDir

def readHead (d : ChainDir) : ChainHead String := d.head.getD genesisHead

def writeHead (d : ChainDir) (head : ChainHead String) : ChainDir := { d with head := some head }

/-- The file of the record's number, written or replaced. -/
def writeRecord (d : ChainDir) (r : EffectAuditRecord) : ChainDir :=
  { d with files := d.files.filter (·.seq ≠ r.seq) ++ [r] }

/-- The record `_append` makes. -/
def newRecord (C : Crypto) (runnerId : String) (e : Effect) (d : ChainDir) : EffectAuditRecord :=
  let head := d.readHead
  let body : RecordBody := {
    runnerId := runnerId
    seq := head.lastSeq + 1
    phase := e.phase
    commandId := e.commandId
    opId := e.opId
    paramsHash := e.paramsHash
    signature := e.signature
    targetScope := e.targetScope
    outcome := e.outcome
    recordedAt := e.recordedAt }
  { toRecordBody := body
    prevHash := head.lastHash
    recordHash := computeRecordHash C head.lastHash (canonicalRecordBody body) }

/-- `_append` up to the point between its two files. -/
def appendRecord (C : Crypto) (runnerId : String) (e : Effect) (d : ChainDir) : ChainDir :=
  d.writeRecord (d.newRecord C runnerId e)

def append (C : Crypto) (runnerId : String) (e : Effect) (d : ChainDir) : ChainDir :=
  let record := d.newRecord C runnerId e
  (d.appendRecord C runnerId e).writeHead ⟨record.seq, record.recordHash⟩

/-- The record continues the chain of the directory's head. -/
theorem newRecord_linked (C : Crypto) (runnerId : String) (e : Effect) (d : ChainDir) :
    (effectChain C).Linked d.readHead (d.newRecord C runnerId e) := ⟨rfl, rfl, rfl⟩

end ChainDir

/-- The name of a record file. -/
def recordName (seq : Int) : List Char := (padded 12 seq).toList ++ ".json".toList

/-- The order of texts: character by character, by their codes. -/
def nameLe : List Char → List Char → Bool
  | [], _ => true
  | _ :: _, [] => false
  | a :: as, b :: bs =>
    if a.toNat < b.toNat then true else if b.toNat < a.toNat then false else nameLe as bs

namespace ChainDir

/-- The record files in the order of their names. -/
def unforwarded (d : ChainDir) : List EffectAuditRecord :=
  d.files.insertionSort fun a b => nameLe (recordName a.seq) (recordName b.seq)

def markForwarded (upToSeq : Int) (d : ChainDir) : ChainDir :=
  { d with files := d.files.filter (upToSeq < ·.seq) }

/-- `mark_forwarded` that stops when it has gone through `n` files. -/
def markSome (upToSeq : Int) (n : Nat) (d : ChainDir) : ChainDir :=
  { d with files := d.files.filter fun f => upToSeq < f.seq || f ∉ d.unforwarded.take n }

end ChainDir

/-! ## The order of names -/

theorem isDigit_toNat {c : Char} (h : c.isDigit = true) : 48 ≤ c.toNat ∧ c.toNat ≤ 57 := by
  simp only [Char.isDigit, Bool.and_eq_true, decide_eq_true_eq] at h
  exact ⟨h.1, h.2⟩

/-- The value of a first digit and the digits behind it. -/
theorem ofDigitChars_cons_zero (x : Char) (xs : List Char) :
    Nat.ofDigitChars 10 (x :: xs) 0 =
      10 ^ xs.length * (x.toNat - 48) + Nat.ofDigitChars 10 xs 0 := by
  rw [Nat.ofDigitChars_cons, Nat.ofDigitChars_eq_ofDigitChars_zero]
  simp

theorem ofDigitChars_lt {xs : List Char} (h : ∀ c ∈ xs, c.isDigit = true) :
    Nat.ofDigitChars 10 xs 0 < 10 ^ xs.length := by
  induction xs with
  | nil => simp
  | cons x xs ih =>
    have hx := isDigit_toNat (h x List.mem_cons_self)
    have hxs := ih fun c hc => h c (List.mem_cons_of_mem x hc)
    rw [ofDigitChars_cons_zero]
    calc 10 ^ xs.length * (x.toNat - 48) + Nat.ofDigitChars 10 xs 0
        < 10 ^ xs.length * (x.toNat - 48) + 10 ^ xs.length := by omega
      _ = 10 ^ xs.length * (x.toNat - 48 + 1) := by rw [Nat.mul_add, Nat.mul_one]
      _ ≤ 10 ^ xs.length * 10 := Nat.mul_le_mul_left _ (by omega)
      _ = 10 ^ (x :: xs).length := by rw [List.length_cons, Nat.pow_succ]

/-- Of two numbers with as many digits the smaller one comes first, whatever stands behind them. -/
theorem nameLe_of_ofDigitChars_lt {xs ys : List Char} (hlen : xs.length = ys.length)
    (hx : ∀ c ∈ xs, c.isDigit = true) (hy : ∀ c ∈ ys, c.isDigit = true)
    (h : Nat.ofDigitChars 10 xs 0 < Nat.ofDigitChars 10 ys 0) (tail tail' : List Char) :
    nameLe (xs ++ tail) (ys ++ tail') = true := by
  induction xs generalizing ys with
  | nil =>
    rw [List.eq_nil_of_length_eq_zero hlen.symm] at h
    exact absurd h (Nat.lt_irrefl _)
  | cons x xs ih =>
    cases ys with
    | nil => cases hlen
    | cons y ys =>
      have hlen' : xs.length = ys.length := Nat.succ.inj hlen
      have hxs : ∀ c ∈ xs, c.isDigit = true := fun c hc => hx c (List.mem_cons_of_mem x hc)
      have hys : ∀ c ∈ ys, c.isDigit = true := fun c hc => hy c (List.mem_cons_of_mem y hc)
      have hbx := isDigit_toNat (hx x List.mem_cons_self)
      have hby := isDigit_toNat (hy y List.mem_cons_self)
      have hbound := ofDigitChars_lt hys
      rw [ofDigitChars_cons_zero, ofDigitChars_cons_zero, hlen'] at h
      simp only [List.cons_append, nameLe]
      rcases Nat.lt_trichotomy x.toNat y.toNat with hlt | heq | hgt
      · rw [if_pos hlt]
      · rw [if_neg (by omega), if_neg (by omega)]
        rw [heq] at h
        exact ih hlen' hxs hys (by omega)
      · -- a larger first digit outweighs what is behind it
        have hstep : 10 ^ ys.length * (y.toNat - 48 + 1) ≤ 10 ^ ys.length * (x.toNat - 48) :=
          Nat.mul_le_mul_left _ (by omega)
        rw [Nat.mul_add, Nat.mul_one] at hstep
        omega

theorem padded_toList (width n : Nat) : (padded width n).toList =
    List.replicate (width - (Nat.toDigits 10 n).length) '0' ++ Nat.toDigits 10 n := by
  have hdigits : (toString (n : Int)).toList = Nat.toDigits 10 n := dumps_int n
  unfold padded
  rw [String.toList_append, String.toList_ofList, hdigits, ← String.length_toList, hdigits]

theorem isDigit_of_mem_padded {width n : Nat} {c : Char} (h : c ∈ (padded width n).toList) :
    c.isDigit = true := by
  rw [padded_toList] at h
  rcases List.mem_append.mp h with hzero | hdigit
  · rw [List.eq_of_mem_replicate hzero]
    rfl
  · exact Nat.isDigit_of_mem_toDigits (by decide) (by decide) hdigit

theorem ofDigitChars_padded (width n : Nat) :
    Nat.ofDigitChars 10 (padded width n).toList 0 = n := by
  rw [padded_toList, Nat.ofDigitChars_append, Nat.ofDigitChars_replicate_zero, Nat.mul_zero,
    Nat.ofDigitChars_ten_toDigits]

theorem length_padded {width n : Nat} (hwidth : 0 < width) (h : n < 10 ^ width) :
    (padded width n).toList.length = width := by
  have hle : (Nat.toDigits 10 n).length ≤ width :=
    (Nat.length_toDigits_le_iff (by decide) hwidth).mpr h
  rw [padded_toList, List.length_append, List.length_replicate]
  omega

/-- Numbers of as many digits come in their order, whatever stands behind them. -/
theorem nameLe_padded {width m n : Nat} (hwidth : 0 < width) (hmn : m < n) (hn : n < 10 ^ width)
    (tail tail' : List Char) :
    nameLe ((padded width m).toList ++ tail) ((padded width n).toList ++ tail') = true := by
  apply nameLe_of_ofDigitChars_lt
  · rw [length_padded hwidth (Nat.lt_trans hmn hn), length_padded hwidth hn]
  · exact fun c hc => isDigit_of_mem_padded hc
  · exact fun c hc => isDigit_of_mem_padded hc
  · rw [ofDigitChars_padded, ofDigitChars_padded]
    exact hmn

/-- **The names of record files are in the order of the numbers**, as long as these have at most
twelve digits. -/
theorem recordName_le {m n : Int} (hm : 0 ≤ m) (hmn : m < n) (hn : n < 10 ^ 12) :
    nameLe (recordName m) (recordName n) = true := by
  obtain ⟨a, rfl⟩ := Int.eq_ofNat_of_zero_le hm
  obtain ⟨b, rfl⟩ := Int.eq_ofNat_of_zero_le (by omega : 0 ≤ n)
  have hb : b < 10 ^ 12 := by exact_mod_cast hn
  have hab : a < b := by exact_mod_cast hmn
  exact nameLe_padded (by decide) hab hb _ _

end Meho.Runner
