import Meho.Lib.History
import Meho.Lib.Versions
import Meho.Policy.Names
import Meho.Runner.EffectLog

/- Ingest of forwarded effect records (gateway/effect_ingest.py).

A transaction reads the head of the runner's chain, verifies the batch record
 by record and writes an audit row for each, stores the new head, and is
committed by the endpoint. Any number of transactions may be open.
`IngestAct.exec` runs the next statement of one of them. Rows of the audit log
are seen by others once they are committed; head rows are slots of
`Meho.Lib.Slot`, with a unique index over tenant and runner.

A head that was read is stored back without a look at what is there by then.
The first head of a runner is inserted, and there the index decides.

Correspondence: the loop of `ingest_effect_records` ↔ `verifyRecords`, all of it ↔
`ingestEffectRecords` (`IngestProc.exec` for its statements), `_write_effect_audit_row`
↔ `effectAuditRow`, `_ingest_effect_or_quarantine` ↔ what `IngestProc.exec` does with a
broken chain, `RunnerEffectChain` ↔ `HeadRow`; what is not listed keeps its name. -/
namespace Meho.Gateway
open Meho.Lib
open Meho.Runner
open Meho.Policy (quoted)
open Meho.Approval (Params)

/-! ## Verification -/

structure EffectChainTamperError where
  reason : String
  seq : Int
  deriving DecidableEq, Repr

section Verify
variable (C : Crypto)

def verifyLink (runnerId : String) (head : ChainHead String) (record : EffectAuditRecord) :
    Except EffectChainTamperError Unit :=
  if record.runnerId ≠ runnerId then
    .error ⟨"effect record claims runner " ++ quoted record.runnerId ++ " but was forwarded by " ++
      quoted runnerId ++ "; a runner cannot extend another runner's chain", record.seq⟩
  else if record.seq ≠ head.lastSeq + 1 then
    .error ⟨"effect chain gap for runner " ++ quoted runnerId ++ ": expected seq " ++
      toString (head.lastSeq + 1) ++ ", got " ++ toString record.seq ++
      " (a dropped or suppressed record breaks the chain)", record.seq⟩
  else if record.prevHash ≠ head.lastHash then
    .error ⟨"effect chain broken link for runner " ++ quoted runnerId ++ " at seq " ++
      toString record.seq ++ ": prev_hash does not match the accepted head (transit tampering)",
      record.seq⟩
  else if computeRecordHash C record.prevHash (canonicalRecordBody record.toRecordBody) ≠
      record.recordHash then
    .error ⟨"effect record body tampered for runner " ++ quoted runnerId ++ " at seq " ++
      toString record.seq ++ ": record_hash does not re-derive from the record body", record.seq⟩
  else .ok ()

/-- The loop over a batch: the head behind it, or the first broken record. -/
def verifyRecords (runnerId : String) : ChainHead String → List EffectAuditRecord →
    Except EffectChainTamperError (ChainHead String)
  | head, [] => .ok head
  | head, record :: records =>
    match verifyLink C runnerId head record with
    | .error e => .error e
    | .ok () => verifyRecords runnerId ⟨record.seq, record.recordHash⟩ records

/-- A whole ingest of one batch against the stored head: the head it stores. -/
def ingestEffectRecords (runnerId : String) (head : Option (ChainHead String))
    (records : List EffectAuditRecord) :
    Except EffectChainTamperError (Option (ChainHead String)) :=
  if records.isEmpty then .ok head
  else
    match verifyRecords C runnerId (head.getD genesisHead) records with
    | .error e => .error e
    | .ok head' => .ok (some head')

variable {C}

/-- **A record passes exactly when it is the runner's next one.** -/
theorem verifyLink_ok_iff {runnerId : String} {head : ChainHead String}
    {record : EffectAuditRecord} : verifyLink C runnerId head record = .ok () ↔
      record.runnerId = runnerId ∧ (effectChain C).Linked head record := by
  unfold verifyLink
  constructor
  · intro h
    split at h
    · cases h
    · rename_i hrunner
      split at h
      · cases h
      · rename_i hseq
        split at h
        · cases h
        · rename_i hprev
          split at h
          · cases h
          · rename_i hown
            simp only [ne_eq, Decidable.not_not] at hrunner hseq hprev hown
            exact ⟨hrunner, hseq, hprev, hown⟩
  · rintro ⟨hrunner, hlink⟩
    have hseq : record.seq = head.lastSeq + 1 := hlink.seq_eq
    have hprev : record.prevHash = head.lastHash := hlink.prev_eq
    have hown : computeRecordHash C record.prevHash (canonicalRecordBody record.toRecordBody) =
        record.recordHash := hlink.own_eq
    rw [if_neg (by simpa using hrunner), if_neg (by simpa using hseq),
      if_neg (by simpa using hprev), if_neg (by simpa using hown)]

section
variable {runnerId : String} {records : List EffectAuditRecord}

theorem verifyRecords_ok_iff {head head' : ChainHead String} :
    verifyRecords C runnerId head records = .ok head' ↔
      (∀ r ∈ records, r.runnerId = runnerId) ∧ (effectChain C).Chained head records ∧
        head' = (effectChain C).after head records := by
  induction records generalizing head with
  | nil =>
    simp only [verifyRecords, Except.ok.injEq, Chaining.Chained, Chaining.after_nil,
      List.not_mem_nil, false_implies, implies_true, true_and]
    exact eq_comm
  | cons record records ih =>
    rw [List.forall_mem_cons]
    cases hlink : verifyLink C runnerId head record with
    | error e =>
      simp only [verifyRecords, hlink, reduceCtorEq, false_iff]
      rintro ⟨⟨hrunner, -⟩, ⟨hl, -⟩, -⟩
      rw [verifyLink_ok_iff.mpr ⟨hrunner, hl⟩] at hlink
      cases hlink
    | ok u =>
      obtain ⟨hrunner, hl⟩ := verifyLink_ok_iff.mp hlink
      have hnext : (effectChain C).next head record = ⟨record.seq, record.recordHash⟩ := rfl
      simp only [verifyRecords, hlink, ih, Chaining.Chained, Chaining.after_cons, hnext, hrunner,
        hl, true_and]

theorem ingestEffectRecords_ok {head : Option (ChainHead String)}
    (hrunner : ∀ r ∈ records, r.runnerId = runnerId)
    (hchain : (effectChain C).Chained (head.getD genesisHead) records) :
    ∃ head', ingestEffectRecords C runnerId head records = .ok head' ∧
      head'.getD genesisHead = (effectChain C).after (head.getD genesisHead) records := by
  unfold ingestEffectRecords
  split
  · rename_i hempty
    rw [List.isEmpty_iff.mp hempty]
    exact ⟨head, rfl, rfl⟩
  · rw [verifyRecords_ok_iff.mpr ⟨hrunner, hchain, rfl⟩]
    exact ⟨_, rfl, rfl⟩

end

end Verify

/-! ## Rows -/

/-- One row of `runner_effect_chain`. -/
structure HeadRow where
  tenantId : Nat
  runnerId : String
  head : ChainHead String
  updatedAt : Time
  deriving DecidableEq

/-- The columns of `runner_effect_chain_runner_uq`. -/
def HeadRow.key (row : HeadRow) : Nat × String := (row.tenantId, row.runnerId)

def headKey (row : HeadRow) : Option (Nat × String) := some row.key

/-- What an effect record finds of its command. -/
structure CommandRow where
  mintAuditId : Option Nat
  params : Params
  paramsHash : String

/-- What the ingest finds of the command a record names. -/
structure MintLink where
  mintAuditId : Option Nat
  linked : Bool
  params : Option Params

def resolveMintLink (record : EffectAuditRecord) : Option CommandRow → MintLink
  | none => ⟨none, false, none⟩
  | some row =>
    ⟨row.mintAuditId, true, if row.paramsHash = record.paramsHash then some row.params else none⟩

/-- The keyed hashes of the audit log. -/
structure AuditHashes where
  digest : String → String
  params : Params → String

def effectParamsHash (H : AuditHashes) (record : EffectAuditRecord) : Option Params → String
  | some params => H.params params
  | none => H.digest record.paramsHash

/-- One row of `audit_log` for a verified record. The row keeps the record it was made from. -/
structure EffectRow where
  operatorSub : String
  tenantId : Nat
  occurredAt : Time
  parentAuditId : Option Nat
  record : EffectAuditRecord
  payload : Dict

def effectAuditRow (H : AuditHashes) (operatorSub : String) (tenantId : Nat)
    (record : EffectAuditRecord) (link : MintLink) (now : Time) : EffectRow where
  operatorSub := operatorSub
  tenantId := tenantId
  occurredAt := now
  parentAuditId := link.mintAuditId
  record := record
  payload := [("provenance", .str "store-and-forward"), ("runner_id", .str record.runnerId),
    ("seq", .int record.seq), ("phase", .str record.phase.text),
    ("command_id", .str record.commandId), ("op_id", .str record.opId),
    ("params_hash", .str (effectParamsHash H record link.params)),
    ("signature", jsonText (record.signature.map H.digest)),
    ("target_scope", .str record.targetScope), ("outcome", jsonText record.outcome),
    ("recorded_at", .str record.recordedAt), ("record_hash", .str (H.digest record.recordHash)),
    ("chain_verified", .bool true), ("linked", .bool link.linked)]

@[simp] theorem effectAuditRow_record (H : AuditHashes) (operatorSub : String) (tenantId : Nat)
    (record : EffectAuditRecord) (link : MintLink) (now : Time) :
    (effectAuditRow H operatorSub tenantId record link now).record = record := rfl

/-- The tenant, the runner and the number a row is about. -/
def EffectRow.key (row : EffectRow) : Nat × String × Int :=
  (row.tenantId, row.record.runnerId, row.record.seq)

/-! ## Transactions -/

/-- Where a transaction stands. `read` is the head it read, with its id. -/
inductive IngestStage where
  | loading
  | writing (read : Option (Nat × ChainHead String)) (head : ChainHead String)
      (todo : List EffectAuditRecord) (written : List EffectRow)
  | flushed (read : Option (Nat × ChainHead String)) (written : List EffectRow)
  | committed
  | tampered (e : EffectChainTamperError)
  | raised
  | lost

/-- An ingest call, by the statement it is before. -/
structure IngestProc where
  operatorSub : String
  tenantId : Nat
  runnerId : String
  records : List EffectAuditRecord
  stage : IngestStage

/-- The chain heads, the audit rows and the calls under way. -/
structure IngestWorld where
  heads : List (Slot HeadRow)
  audit : List EffectRow
  procs : List IngestProc

/-- What can be seen of an ingest. -/
inductive IngestEvent where
  | ingested (tenantId : Nat) (runnerId : String) (records : List EffectAuditRecord)
  | rejected (tenantId : Nat) (runnerId : String) (records : List EffectAuditRecord)
      (e : EffectChainTamperError)

/-- The head row the transaction sees, with its id. -/
def loadHead (tx tenantId : Nat) (runnerId : String) (heads : List (Slot HeadRow)) :
    Option (Nat × ChainHead String) :=
  heads.zipIdx.findSome? fun (s, i) =>
    (s.seen tx).bind fun row => if row.key = (tenantId, runnerId) then some (i, row.head) else none

/-- The head row written: `none` when the statement waits, an error when the index refuses it. -/
def persistHead (tx tenantId : Nat) (runnerId : String) (read : Option (Nat × ChainHead String))
    (head : ChainHead String) (now : Time) (heads : List (Slot HeadRow)) :
    Option (Except Unit (List (Slot HeadRow))) :=
  match read with
  | none =>
    match indexAnswer headKey tx (tenantId, runnerId) heads with
    | .wait => none
    | .duplicate => some (.error ())
    | .free => some (.ok (heads ++ [.fresh tx ⟨tenantId, runnerId, head, now⟩]))
  | some (id, _) =>
    (update tx (fun i _ => i = id) (fun row => { row with head := head, updatedAt := now })
      heads).map fun r => .ok r.1

section Exec
variable (C : Crypto) (H : AuditHashes)

/-- The next statement of a transaction; `none` when it waits or has ended. `command` is the row
of the command that the next record names. -/
def IngestProc.exec (p : IngestProc) (tx : Nat) (now : Time) (command : Option CommandRow)
    (w : IngestWorld) : Option (IngestWorld × IngestStage × List IngestEvent) :=
  match p.stage with
  | .loading =>
    if p.records.isEmpty then some (w, .flushed none [], [])
    else
      let read := loadHead tx p.tenantId p.runnerId w.heads
      some (w, .writing read ((read.map (·.2)).getD genesisHead) p.records [], [])
  | .writing read head (record :: todo) written =>
    match verifyLink C p.runnerId head record with
    | .error e =>
      -- one bad link rejects the whole batch
      some ({ w with heads := w.heads.map (·.abort tx) }, .tampered e,
        [.rejected p.tenantId p.runnerId p.records e])
    | .ok () =>
      let row := effectAuditRow H p.operatorSub p.tenantId record (resolveMintLink record command)
        now
      some (w, .writing read ⟨record.seq, record.recordHash⟩ todo (written ++ [row]), [])
  | .writing read head [] written =>
    -- the head is written where it was read, or the transaction waits or fails
    match persistHead tx p.tenantId p.runnerId read head now w.heads with
    | none => none
    | some (.error ()) => some ({ w with heads := w.heads.map (·.abort tx) }, .raised, [])
    | some (.ok heads) => some ({ w with heads := heads }, .flushed read written, [])
  | .flushed _ written =>
    some ({ w with heads := w.heads.map (·.commit tx), audit := w.audit ++ written }, .committed,
      [.ingested p.tenantId p.runnerId (written.map (·.record))])
  | _ => none

/-- A new batch, the next statement of a call or its loss. -/
inductive IngestAct where
  | ingest (operatorSub : String) (tenantId : Nat) (runnerId : String)
      (records : List EffectAuditRecord)
  | exec (pid : Nat) (now : Time) (command : Option CommandRow)
  | lose (pid : Nat)

/-- The transaction has not ended. -/
def IngestStage.isOpen : IngestStage → Bool
  | .loading | .writing .. | .flushed .. => true
  | _ => false

def IngestWorld.step (w : IngestWorld) : IngestAct → IngestWorld × List IngestEvent
  | .ingest operatorSub tenantId runnerId records =>
    ({ w with procs := w.procs ++ [⟨operatorSub, tenantId, runnerId, records, .loading⟩] }, [])
  | .exec pid now command =>
    match w.procs[pid]? with
    | none => (w, [])
    | some p =>
      match p.exec C H pid now command w with
      | none => (w, [])
      | some (w', stage, events) =>
        ({ w' with procs := w.procs.set pid { p with stage := stage } }, events)
  | .lose pid =>
    match w.procs[pid]? with
    | none => (w, [])
    | some p =>
      if p.stage.isOpen then
        ({ w with
          heads := w.heads.map (·.abort pid)
          procs := w.procs.set pid { p with stage := .lost } }, [])
      else (w, [])

def ingestMachine : Machine IngestWorld IngestAct IngestEvent where
  start := { heads := [], audit := [], procs := [] }
  step := IngestWorld.step C H

end Exec

/-! ## One action -/

section Next
variable {C : Crypto} {H : AuditHashes} {c : Config IngestWorld IngestEvent} {pid : Nat}
  {p : IngestProc} {now : Time} {command : Option CommandRow}

section
variable (hp : c.state.procs[pid]? = some p)
include hp

theorem next_exec {w' : IngestWorld} {stage : IngestStage} {events : List IngestEvent}
    (hexec : p.exec C H pid now command c.state = some (w', stage, events)) :
    (ingestMachine C H).next c (.exec pid now command) =
      ⟨{ w' with procs := c.state.procs.set pid { p with stage := stage } },
        c.events ++ events⟩ := by
  simp [Machine.next, ingestMachine, IngestWorld.step, hp, hexec]

theorem next_exec_none (hexec : p.exec C H pid now command c.state = none) :
    (ingestMachine C H).next c (.exec pid now command) = c := by
  simp [Machine.next, ingestMachine, IngestWorld.step, hp, hexec]

theorem next_lose (hopen : p.stage.isOpen = true) :
    (ingestMachine C H).next c (.lose pid) =
      ⟨⟨c.state.heads.map (·.abort pid), c.state.audit,
        c.state.procs.set pid { p with stage := .lost }⟩, c.events⟩ := by
  simp [Machine.next, ingestMachine, IngestWorld.step, hp, hopen]

end

/-- What an action does: it opens a transaction, runs a statement, ends a transaction, or
nothing. -/
theorem ingest_next_cases (C : Crypto) (H : AuditHashes) (c : Config IngestWorld IngestEvent)
    (a : IngestAct) :
    (ingestMachine C H).next c a = c ∨
      (∃ operatorSub tenantId runnerId records, (ingestMachine C H).next c a =
        ⟨{ c.state with
            procs := c.state.procs ++ [⟨operatorSub, tenantId, runnerId, records, .loading⟩] },
          c.events⟩) ∨
      (∃ pid now command p w' stage events, a = .exec pid now command ∧
        c.state.procs[pid]? = some p ∧
        p.exec C H pid now command c.state = some (w', stage, events) ∧
        (ingestMachine C H).next c a =
          ⟨{ w' with procs := c.state.procs.set pid { p with stage := stage } },
            c.events ++ events⟩) ∨
      ∃ pid p, c.state.procs[pid]? = some p ∧ p.stage.isOpen = true ∧
        (ingestMachine C H).next c a =
          ⟨⟨c.state.heads.map (·.abort pid), c.state.audit,
            c.state.procs.set pid { p with stage := .lost }⟩, c.events⟩ := by
  cases a with
  | ingest operatorSub tenantId runnerId records =>
    refine .inr (.inl ⟨operatorSub, tenantId, runnerId, records, ?_⟩)
    simp [Machine.next, ingestMachine, IngestWorld.step]
  | exec pid now command =>
    cases hp : c.state.procs[pid]? with
    | none => exact .inl (by simp [Machine.next, ingestMachine, IngestWorld.step, hp])
    | some p =>
      cases hexec : p.exec C H pid now command c.state with
      | none => exact .inl (next_exec_none hp hexec)
      | some result =>
        obtain ⟨w', stage, events⟩ := result
        exact .inr (.inr (.inl ⟨pid, now, command, p, w', stage, events, rfl, hp, hexec,
          next_exec hp hexec⟩))
  | lose pid =>
    cases hp : c.state.procs[pid]? with
    | none => exact .inl (by simp [Machine.next, ingestMachine, IngestWorld.step, hp])
    | some p =>
      by_cases hopen : p.stage.isOpen = true
      · exact .inr (.inr (.inr ⟨pid, p, hp, hopen, next_lose hp hopen⟩))
      · exact .inl (by simp [Machine.next, ingestMachine, IngestWorld.step, hp, hopen])

end Next

/-! ## The condition -/

def IngestWorld.stageOf (w : IngestWorld) (pid : Nat) : Option IngestStage :=
  (w.procs[pid]?).map fun (p : IngestProc) => p.stage

/-- The transaction that this step commits read the head that is still the committed one. -/
def OnHeadRead (c : Config IngestWorld IngestEvent) : IngestAct → Prop
  | .exec pid _ _ =>
    match c.state.stageOf pid with
    | some (.flushed (some (id, head)) _) =>
      ((c.state.heads[id]?).bind (·.committed)).map (·.head) = some head
    | _ => True
  | _ => True

instance OnHeadRead.decidable (c : Config IngestWorld IngestEvent) (a : IngestAct) :
    Decidable (OnHeadRead c a) := by
  unfold OnHeadRead
  split
  · split <;> infer_instance
  · infer_instance

end Meho.Gateway
