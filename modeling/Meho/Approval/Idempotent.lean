import Meho.Lib.Index
import Meho.Approval.Guarantees

/- Parks with an idempotency key, by any number of callers at once.

`create_pending_request` reads the key's holder, and later locks it or inserts
a row. Between the two reads and the write other transactions commit, so a
keyed park is a process here (`ParkProc`), with one statement to a step:

  lookup   `_find_idempotent_request` under the operator's sub. A usable
           holder is the answer, an overdue one is to be expired.
  expire   `_lock_and_expire_pending`. A miss goes back to the lookup. Once
           the park holds the row's lock nobody else can change the row or
           use its key, so the rest of its transaction is one step.
  insert   the insert, under the unique index on tenant, principal and key.
  lost     the insert hit the index: the row that got there first is looked
           up and is the answer.

Every other action of the queue goes on between these steps.

The lookup asks for the operator's key, the insert takes the requester's. Where
the two differ the lookup misses the row that the insert then runs into, and the
lost insert asks nobody whether that row is overdue (`overdue_request_returned`).
`idempotent_parks` says what holds when they are the same.

Correspondence: `_resolve_idempotent_request` ↔ `lookupStep` and `expireStep`,
`_lock_and_expire_pending` ↔ `expireStep`, `_insert_idempotent_request` ↔
`insertStep` and `lostStep`. Together the
steps are `createPendingRequest`. -/
namespace Meho.Approval
open Meho.Lib

/-! ## The steps of a keyed park -/

/-- A keyed park: its arguments and key, and whether an agent's waiter follows it. -/
structure ParkJob where
  args : CreateArgs
  key : String
  waits : Bool
  fqdn : Option String

/-- Whom the row is saved for. -/
def CreateArgs.requesterSub (a : CreateArgs) : String :=
  match a.requester with
  | some r => r.sub
  | none => a.operator.sub

/-- The arguments, with every clock reading of the step. -/
def CreateArgs.at (a : CreateArgs) (now : Time) : CreateArgs :=
  { a with lookupNow := now, expireNow := now, createdAt := now, auditNow := now }

/-- A park under an idempotency key, by the statement it is before. -/
inductive ParkProc where
  | lookup (j : ParkJob)
  | expire (j : ParkJob) (requestId : Nat)
  | insert (j : ParkJob)
  | lost (j : ParkJob)
  | done

/-- How a park ends: with a new row, with the row that holds the key, or with an error. A row
that is handed back or named in a conflict is given as the park read it. -/
inductive ParkOutcome where
  | parked (requestId : Nat)
  | reused (requestId : Nat) (row : ApprovalRequest)
  | conflict (requestId : Nat) (row : ApprovalRequest)
  | integrityError

/-- What one step of a park does. -/
structure ParkResult where
  store : Store
  proc : ParkProc
  outcome : Option ParkOutcome

def ParkResult.goOn (s : Store) (p : ParkProc) : ParkResult := ⟨s, p, none⟩

def ParkResult.answer (s : Store) (o : ParkOutcome) : ParkResult := ⟨s, .done, some o⟩

variable (D : Deployment)

/-- `_reuse_idempotent_request` on the row that holds the key. A conflict rolls back. -/
def reuseOutcome (a : CreateArgs) (requestId : Nat) (row : ApprovalRequest) : ParkOutcome :=
  match reuseIdempotentRequest D.hashing a requestId row with
  | .ok _ => .reused requestId row
  | .error _ => .conflict requestId row

def lookupStep (now : Time) (s : Store) (j : ParkJob) : ParkResult :=
  match findIdempotentRequest s j.args.operator.tenantId j.args.operator.sub j.key with
  | none => .goOn s (.insert j)
  | some id =>
    match s.requests[id]? with
    | none => .goOn s (.insert j)
    | some existing =>
      if isOverduePending j.args.settings now existing then .goOn s (.expire j id)
      else .answer s (reuseOutcome D j.args id existing)

/-- The insert in a transaction that freed the key: `s` are the tables before it, `s₁` its own
view. -/
def insertFreed (now : Time) (s s₁ : Store) (j : ParkJob) : ParkResult :=
  match findIdempotentRequest s₁ j.args.operator.tenantId j.args.requesterSub j.key with
  | none => .answer (insertRequest D (j.args.at now) s₁) (.parked s₁.requests.length)
  | some id =>
    match s₁.requests[id]? with
    | none => .answer (insertRequest D (j.args.at now) s₁) (.parked s₁.requests.length)
    | some winner =>
      match reuseOutcome D j.args id winner with
      | .conflict id row => .answer s (.conflict id row)
      | o => .answer s₁ o

def expireStep (now : Time) (s : Store) (j : ParkJob) (id : Nat) : ParkResult :=
  match s.requests[id]? with
  | none => .goOn s (.lookup j)
  | some locked =>
    if locked.status = .pending then
      insertFreed D now s (expireRequest (expiryOperator locked.tenantId) now
        (some (resolveDefaultTtl j.args.settings)) (fun _ => []) now s id) j
    else .goOn s (.lookup j)

def insertStep (now : Time) (s : Store) (j : ParkJob) : ParkResult :=
  match findIdempotentRequest s j.args.operator.tenantId j.args.requesterSub j.key with
  | none => .answer (insertRequest D (j.args.at now) s) (.parked s.requests.length)
  | some _ => .goOn s (.lost j)

def lostStep (s : Store) (j : ParkJob) : ParkResult :=
  match findIdempotentRequest s j.args.operator.tenantId j.args.requesterSub j.key with
  | none => .answer s .integrityError
  | some id =>
    match s.requests[id]? with
    | none => .answer s .integrityError
    | some winner => .answer s (reuseOutcome D j.args id winner)

def parkStep (now : Time) (s : Store) : ParkProc → ParkResult
  | .lookup j => lookupStep D now s j
  | .expire j id => expireStep D now s j id
  | .insert j => insertStep D now s j
  | .lost j => lostStep D s j
  | .done => .goOn s .done

/-! ## The machine -/

/-- The queue's world and the keyed parks in flight. -/
structure ParkWorld where
  world : World
  parks : List ParkProc

/-- A step of the queue, or of a park. -/
inductive ParkAct where
  | act (a : Act)
  | advance (pid : Nat) (now : Time)
  | crash (pid : Nat)

/-- What a step leaves behind, a park's answer included. -/
inductive ParkEvent where
  | queue (e : Event)
  | answered (j : ParkJob) (outcome : ParkOutcome) (now : Time)

/-- The request a park hands to its caller. -/
def ParkOutcome.request? : ParkOutcome → Option Nat
  | .parked id => some id
  | .reused id _ => some id
  | _ => none

def ParkProc.job? : ParkProc → Option ParkJob
  | .lookup j => some j
  | .expire j _ => some j
  | .insert j => some j
  | .lost j => some j
  | .done => none

/-- The world after a step of a park. The caller's waiter starts when the park answers. -/
def World.afterPark (w : World) (p : ParkProc) (r : ParkResult) : World :=
  match p.job?, r.outcome.bind ParkOutcome.request? with
  | some j, some id =>
    if j.waits then w.spawn r.store (.waiterStart j.args.operator id (waiterCall j.args j.fqdn))
    else ⟨r.store, w.procs⟩
  | _, _ => ⟨r.store, w.procs⟩

/-- One action. A keyed park starts a process; every other action is the queue's own. -/
def parkWorldStep (w : ParkWorld) : ParkAct → ParkWorld × List ParkEvent
  | .act a =>
    match a with
    | .create args waits fqdn =>
      match args.idempotencyKey with
      | some key => (⟨w.world, w.parks ++ [.lookup ⟨args, key, waits, fqdn⟩]⟩, [])
      | none =>
        let r := worldStep D w.world (.create args waits fqdn)
        (⟨r.1, w.parks⟩, r.2.map .queue)
    | a =>
      let r := worldStep D w.world a
      (⟨r.1, w.parks⟩, r.2.map .queue)
  | .advance pid now =>
    match w.parks[pid]? with
    | none => (w, [])
    | some p =>
      let r := parkStep D now w.world.store p
      (⟨w.world.afterPark p r, w.parks.set pid r.proc⟩,
        match p.job?, r.outcome with
        | some j, some o => [.answered j o now]
        | _, _ => [])
  | .crash pid => (⟨w.world, w.parks.set pid .done⟩, [])

/-- The queue with its keyed parks taken apart. -/
def parking : Machine ParkWorld ParkAct ParkEvent := ⟨⟨⟨Store.empty, []⟩, []⟩, parkWorldStep D⟩

/-! ## Who holds a key -/

/-- The key a row holds: its own key, while the row is live. -/
def ApprovalRequest.heldKey (r : ApprovalRequest) : Option (Nat × String × String) :=
  if isLive r.status then r.idempotencyKey.map fun key => (r.tenantId, r.principalSub, key)
  else none

variable {r : ApprovalRequest} {tenantId : Nat} {sub key : String}

theorem heldKey_eq_some :
    r.heldKey = some (tenantId, sub, key) ↔
      isLive r.status = true ∧ r.tenantId = tenantId ∧ r.principalSub = sub ∧
        r.idempotencyKey = some key := by
  unfold ApprovalRequest.heldKey
  constructor
  · intro h
    split at h
    · rename_i hlive
      cases hk : r.idempotencyKey with
      | none => rw [hk] at h; cases h
      | some k =>
        rw [hk] at h
        cases h
        exact ⟨hlive, rfl, rfl, rfl⟩
    · cases h
  · rintro ⟨hlive, rfl, rfl, hk⟩
    rw [if_pos hlive, hk]
    rfl

/-- The index of migration 0105: a live request is the only one with its key. -/
def OneHolder (s : Store) : Prop := UniqueIndex ApprovalRequest.heldKey s.requests

variable {s : Store} {id : Nat}

theorem findIdempotentRequest_some (h : findIdempotentRequest s tenantId sub key = some id) :
    ∃ r, s.requests[id]? = some r ∧ r.heldKey = some (tenantId, sub, key) := by
  obtain ⟨hlt, hsel, -⟩ := List.findIdx?_eq_some_iff_getElem.mp h
  refine ⟨s.requests[id], List.getElem?_eq_getElem hlt, ?_⟩
  simp only [Bool.and_eq_true, decide_eq_true_eq] at hsel
  obtain ⟨⟨⟨ht, hs⟩, hk⟩, hl⟩ := hsel
  exact heldKey_eq_some.mpr ⟨hl, ht, hs, hk⟩

theorem findIdempotentRequest_none (h : findIdempotentRequest s tenantId sub key = none)
    (hr : s.requests[id]? = some r) : r.heldKey ≠ some (tenantId, sub, key) := by
  intro hkey
  obtain ⟨hl, ht, hs, hk⟩ := heldKey_eq_some.mp hkey
  have hno := List.findIdx?_eq_none_iff.mp h r (List.mem_of_getElem? hr)
  simp [ht, hs, hk, hl] at hno

variable {r' : ApprovalRequest}

section
variable {f g : File} (h : FileStep id f g) (hr : f.row = some r) (hr' : g.row = some r')
include h hr hr'

theorem FileStep.heldKey {k : Nat × String × String} (hk : r'.heldKey = some k) :
    r.heldKey = some k := by
  cases h with
  | queue hq =>
    cases hq with
    | keep _ _ =>
      have hsame : r = r' := Option.some.inj (hr.symm.trans hr')
      rw [hsame]
      exact hk
    | create _ _ => cases hr
    | close c hp _ =>
      cases hr
      cases hr'
      obtain ⟨tenantId, sub, key⟩ := k
      obtain ⟨-, ht, hs, hkey⟩ := heldKey_eq_some.mp hk
      have hlive : isLive r.status = true := by rw [hp]; rfl
      refine heldKey_eq_some.mpr ⟨hlive, ?_, ?_, ?_⟩
      · rw [← ht]; cases c <;> rfl
      · rw [← hs]; cases c <;> rfl
      · rw [← hkey]; cases c <;> rfl
  | claim _ _ _ _ | record _ _ _ _ | reclaim _ _ => cases hr; cases hr'; exact hk

theorem FileStep.idempotencyKey : r'.idempotencyKey = r.idempotencyKey := by
  cases h with
  | queue hq =>
    cases hq with
    | keep _ _ => rw [Option.some.inj (hr'.symm.trans hr)]
    | create _ _ => cases hr
    | close c _ _ => cases hr; cases hr'; cases c <;> rfl
  | claim _ _ _ _ | record _ _ _ _ | reclaim _ _ => cases hr; cases hr'; rfl

end

/-- A transaction that takes one step on each file keeps the index, if what it adds holds no
key. -/
theorem OneHolder.step {s' : Store} (h : OneHolder s)
    (hf : ∀ id, FileStep id (s.file id) (s'.file id))
    (hnew : ∀ (id : Nat) (r : ApprovalRequest), s.requests[id]? = none → s'.requests[id]? = some r →
      r.heldKey = none) :
    OneHolder s' := by
  refine UniqueIndex.of_subset h ?_
  intro id r' k hr' hk
  cases hr : s.requests[id]? with
  | none =>
    rw [hnew id r' hr hr'] at hk
    cases hk
  | some r => exact ⟨r, rfl, (hf id).heldKey hr hr' hk⟩

theorem insertRequest_requests (D : Deployment) (a : CreateArgs) (s : Store) :
    (insertRequest D a s).requests = s.requests ++ [insertedRow D s a] := by
  unfold insertRequest insertedRow
  simp only
  split <;> rfl

theorem insertedRow_heldKey (D : Deployment) (a : CreateArgs) (s : Store) :
    (insertedRow D s a).heldKey =
      a.idempotencyKey.map fun key => (a.operator.tenantId, a.requesterSub, key) := rfl

theorem OneHolder.insert {D : Deployment} {a : CreateArgs} (h : OneHolder s)
    (hfree : ∀ (id : Nat) (r : ApprovalRequest) (key : String), s.requests[id]? = some r →
      a.idempotencyKey = some key → r.heldKey ≠ some (a.operator.tenantId, a.requesterSub, key)) :
    OneHolder (insertRequest D a s) := by
  unfold OneHolder
  rw [insertRequest_requests]
  refine UniqueIndex.append h ?_
  intro id r k hr hk hnew
  rw [insertedRow_heldKey] at hnew
  cases hkey : a.idempotencyKey with
  | none => rw [hkey] at hnew; cases hnew
  | some key =>
    rw [hkey] at hnew
    cases hnew
    exact hfree id r key hr hkey hk

theorem expireRequest_status (hr : s.requests[id]? = some r) (operator : Operator)
    (cutoff auditNow : Time) (ttl : Option Time)
    (hr' : (expireRequest operator cutoff ttl (fun _ => []) auditNow s id).requests[id]? = some r') :
    r'.status = .expired := by
  simp only [expireRequest, hr, Store.addAudit, Store.endRunInput] at hr'
  split at hr'
  · simp [Store.updateRequest, Store.discardHandoff, hr] at hr'
    rw [← hr']
    rfl
  · simp [Store.updateRequest, Store.discardHandoff, hr] at hr'
    rw [← hr']
    rfl

theorem OneHolder.freed (h : OneHolder s) {k : Nat × String × String}
    (hr : s.requests[id]? = some r) (hk : r.heldKey = some k) (operator : Operator)
    (cutoff auditNow : Time) (ttl : Option Time) {id' : Nat}
    (hr' : (expireRequest operator cutoff ttl (fun _ => []) auditNow s id).requests[id']? = some r') :
    r'.heldKey ≠ some k := by
  intro hk'
  by_cases hid : id' = id
  · subst hid
    have hexpired := expireRequest_status hr operator cutoff auditNow ttl hr'
    have hlive := (heldKey_eq_some.mp hk').1
    rw [hexpired] at hlive
    cases hlive
  · have hsame := congrArg File.row
      (expireRequest_file_ne operator cutoff auditNow ttl (fun _ => []) (s := s) hid)
    rw [file_row, file_row, hr'] at hsame
    exact hid (h id' id r' r k hsame.symm hr hk' hk)

/-! ## What one step of a park does -/

section Steps
variable {D : Deployment}

/-- The retry is the call that was parked, as `_reuse_idempotent_request` compares them. -/
def SameCall (D : Deployment) (a : CreateArgs) (r : ApprovalRequest) : Prop :=
  r.opId = a.opId ∧ r.connectorId = a.connectorId ∧ r.targetId = a.targetId ∧
    paramsHashMatches D.hashing a.params r.paramsHash = true ∧ r.previewHash = a.previewHash ∧
    r.workRef = a.workRef

theorem reuseOutcome_cases (a : CreateArgs) (id : Nat) (r : ApprovalRequest) :
    (SameCall D a r ∧ reuseOutcome D a id r = .reused id r) ∨
      (¬SameCall D a r ∧ reuseOutcome D a id r = .conflict id r) := by
  unfold reuseOutcome reuseIdempotentRequest
  by_cases h : SameCall D a r
  · left
    refine ⟨h, ?_⟩
    unfold SameCall at h
    rw [if_pos h]
  · right
    refine ⟨h, ?_⟩
    unfold SameCall at h
    rw [if_neg h]

/-- The insert of a transaction that freed the key, or not: the key was free, or another row
held it and nothing was added. -/
theorem insertFreed_store (now : Time) (s s₁ : Store) (j : ParkJob) :
    (insertFreed D now s s₁ j).store = s ∨ (insertFreed D now s s₁ j).store = s₁ ∨
      (findIdempotentRequest s₁ j.args.operator.tenantId j.args.requesterSub j.key = none ∧
        (insertFreed D now s s₁ j).store = insertRequest D (j.args.at now) s₁) := by
  unfold insertFreed
  split
  · rename_i hfind
    exact .inr (.inr ⟨hfind, rfl⟩)
  · rename_i id hfind
    obtain ⟨r, hr, -⟩ := findIdempotentRequest_some hfind
    simp only [hr]
    obtain ⟨-, ho⟩ | ⟨-, ho⟩ := reuseOutcome_cases (D := D) j.args id r
    · simp only [ho]
      exact .inr (.inl rfl)
    · simp only [ho]
      exact .inl rfl

/-- A step of a park reads, or frees an overdue key, or inserts a row under a key nobody
holds. -/
theorem parkStep_store (now : Time) (s : Store) (p : ParkProc) :
    ∃ s₁, KeyFreed s s₁ ∧
      ((parkStep D now s p).store = s₁ ∨
        ∃ j, p.job? = some j ∧
          findIdempotentRequest s₁ j.args.operator.tenantId j.args.requesterSub j.key = none ∧
          (parkStep D now s p).store = insertRequest D (j.args.at now) s₁) := by
  have hstay : KeyFreed s s := .inl rfl
  cases p with
  | lookup j =>
    refine ⟨s, hstay, .inl ?_⟩
    simp only [parkStep, lookupStep]
    split
    · rfl
    · split
      · rfl
      · split <;> rfl
  | expire j id =>
    simp only [parkStep, expireStep]
    split
    · exact ⟨s, hstay, .inl rfl⟩
    · rename_i locked hr
      split
      · rename_i hp
        -- the expired row gives the key free in the transaction that takes it
        have hfreed : KeyFreed s (expireRequest (expiryOperator locked.tenantId) now
            (some (resolveDefaultTtl j.args.settings)) (fun _ => []) now s id) :=
          .inr ⟨id, locked, _, _, _, _, hr, hp, rfl⟩
        rcases insertFreed_store (D := D) now s _ j with hs | hs | ⟨hfind, hs⟩
        · exact ⟨s, hstay, .inl hs⟩
        · exact ⟨_, hfreed, .inl hs⟩
        · exact ⟨_, hfreed, .inr ⟨j, rfl, hfind, hs⟩⟩
      · exact ⟨s, hstay, .inl rfl⟩
  | insert j =>
    simp only [parkStep, insertStep]
    split
    · rename_i hfind
      exact ⟨s, hstay, .inr ⟨j, rfl, hfind, rfl⟩⟩
    · exact ⟨s, hstay, .inl rfl⟩
  | lost j =>
    refine ⟨s, hstay, .inl ?_⟩
    simp only [parkStep, lostStep]
    split
    · rfl
    · split <;> rfl
  | done => exact ⟨s, hstay, .inl rfl⟩

variable {s : Store}

theorem parkStep_file (now : Time) (hok : ∀ id, FileOk id (s.file id)) (p : ParkProc) (id : Nat) :
    QueueStep id (s.file id) ((parkStep D now s p).store.file id) := by
  obtain ⟨s₁, hfree, hs | ⟨j, -, -, hs⟩⟩ := parkStep_store (D := D) now s p
  · rw [hs]
    exact hfree.file id
  · rw [hs]
    exact hfree.insert_file hok id

theorem KeyFreed.oneHolder {s₁ : Store} (h : OneHolder s) (hfree : KeyFreed s s₁) :
    OneHolder s₁ := by
  refine h.step (fun id => .queue (hfree.file id)) ?_
  intro id r hnone hr
  have hlt := (List.getElem?_eq_some_iff.mp hr).1
  have hge := List.getElem?_eq_none_iff.mp hnone
  rw [hfree.keeps.length] at hlt
  omega

variable {now : Time} {p : ParkProc}

theorem parkStep_oneHolder (h : OneHolder s)
    (hkey : ∀ j, p.job? = some j → j.args.idempotencyKey = some j.key) :
    OneHolder (parkStep D now s p).store := by
  obtain ⟨s₁, hfree, hs | ⟨j, hj, hfind, hs⟩⟩ := parkStep_store (D := D) now s p
  · rw [hs]
    exact hfree.oneHolder h
  · rw [hs]
    refine (hfree.oneHolder h).insert ?_
    intro id r key hr hk
    have hsame : key = j.key := Option.some.inj (hk.symm.trans (hkey j hj))
    rw [hsame]
    exact findIdempotentRequest_none hfind hr

/-- What a park may count on between its lookup and the lock: the row it saw is a row of its
key, live or not. -/
def ParkReads (s : Store) : ParkProc → Prop
  | .expire j id => ∃ r, s.requests[id]? = some r ∧ r.tenantId = j.args.operator.tenantId ∧
      r.principalSub = j.args.requesterSub ∧ r.idempotencyKey = some j.key
  | _ => True

/-- The answer of a park is right, seen from any later state of the tables: a new row is saved
under the key; a row that is handed back, or named in a conflict, held the key and was not
overdue, and is handed back exactly for the same call. -/
def ParkOutcome.Right (D : Deployment) (s : Store) (j : ParkJob) (now : Time) :
    ParkOutcome → Prop
  | .parked id => ∃ r, s.requests[id]? = some r ∧ r.tenantId = j.args.operator.tenantId ∧
      r.principalSub = j.args.requesterSub ∧ r.idempotencyKey = some j.key
  | .reused id r => SameCall D j.args r ∧
      r.heldKey = some (j.args.operator.tenantId, j.args.requesterSub, j.key) ∧
      isOverduePending j.args.settings now r = false ∧
      ∃ r', s.requests[id]? = some r' ∧ Later r r'
  | .conflict id r => ¬SameCall D j.args r ∧
      r.heldKey = some (j.args.operator.tenantId, j.args.requesterSub, j.key) ∧
      isOverduePending j.args.settings now r = false ∧
      ∃ r', s.requests[id]? = some r' ∧ Later r r'
  | .integrityError => True

variable {j : ParkJob}

theorem reuseOutcome_right {id : Nat} {r : ApprovalRequest} (hr : s.requests[id]? = some r)
    (hk : r.heldKey = some (j.args.operator.tenantId, j.args.requesterSub, j.key))
    (hdue : isOverduePending j.args.settings now r = false) :
    (reuseOutcome D j.args id r).Right D s j now := by
  have hrow : ∃ r', s.requests[id]? = some r' ∧ Later r r' := ⟨r, hr, Later.refl r⟩
  obtain ⟨hsame, ho⟩ | ⟨hdiff, ho⟩ := reuseOutcome_cases (D := D) j.args id r
  · rw [ho]
    exact ⟨hsame, hk, hdue, hrow⟩
  · rw [ho]
    exact ⟨hdiff, hk, hdue, hrow⟩

theorem inserted_right (now now' : Time) (hkey : j.args.idempotencyKey = some j.key) :
    (ParkOutcome.parked s.requests.length).Right D (insertRequest D (j.args.at now) s) j now' := by
  refine ⟨insertedRow D s (j.args.at now), ?_, rfl, rfl, hkey⟩
  rw [insertRequest_requests]
  exact List.getElem?_concat_length

/-- The step stays off the two paths that check nothing: a lookup for somebody else finds no
request of the operator's own, and a lost insert does not run into an overdue row. -/
def stepInTime (now : Time) (s : Store) : ParkProc → Bool
  | .lookup j =>
    j.args.requesterSub = j.args.operator.sub ||
      (findIdempotentRequest s j.args.operator.tenantId j.args.operator.sub j.key).isNone
  | .lost j =>
    match findIdempotentRequest s j.args.operator.tenantId j.args.requesterSub j.key with
    | none => true
    | some id =>
      match s.requests[id]? with
      | none => true
      | some winner => !isOverduePending j.args.settings now winner
  | _ => true

theorem lookup_inTime {id : Nat} (h : stepInTime now s (.lookup j) = true)
    (hfind : findIdempotentRequest s j.args.operator.tenantId j.args.operator.sub j.key = some id) :
    j.args.requesterSub = j.args.operator.sub := by
  simpa [stepInTime, hfind] using h

theorem parkStep_right (h : OneHolder s) (hj : p.job? = some j)
    (hkey : j.args.idempotencyKey = some j.key) (hreads : ParkReads s p)
    (hin : stepInTime now s p = true) {o : ParkOutcome} (ho : (parkStep D now s p).outcome = some o) :
    o.Right D (parkStep D now s p).store j now := by
  cases p with
  | lookup j' =>
    cases hj
    simp only [parkStep, lookupStep] at ho ⊢
    split at ho
    · cases ho
    · rename_i id hfind
      obtain ⟨r, hr, hk⟩ := findIdempotentRequest_some hfind
      simp only [hr] at ho ⊢
      split at ho
      · cases ho
      · rename_i hdue
        cases ho
        rw [if_neg hdue]
        rw [← lookup_inTime hin hfind] at hk
        exact reuseOutcome_right hr hk (by simpa using hdue)
  | expire j' id =>
    cases hj
    obtain ⟨r, hr, ht, hs, hrkey⟩ := hreads
    simp only [parkStep, expireStep, hr] at ho ⊢
    split at ho
    · rename_i hp
      rw [if_pos hp]
      have hlive : isLive r.status = true := by rw [hp]; rfl
      have hheld : r.heldKey = some (j.args.operator.tenantId, j.args.requesterSub, j.key) :=
        heldKey_eq_some.mpr ⟨hlive, ht, hs, hrkey⟩
      -- the row it expired was the only holder of the key
      have hnone : findIdempotentRequest (expireRequest (expiryOperator r.tenantId) now
          (some (resolveDefaultTtl j.args.settings)) (fun _ => []) now s id)
          j.args.operator.tenantId j.args.requesterSub j.key = none := by
        cases hfind : findIdempotentRequest (expireRequest (expiryOperator r.tenantId) now
          (some (resolveDefaultTtl j.args.settings)) (fun _ => []) now s id)
          j.args.operator.tenantId j.args.requesterSub j.key with
        | none => rfl
        | some id' =>
          obtain ⟨r', hr', hk'⟩ := findIdempotentRequest_some hfind
          exact absurd hk' (h.freed hr hheld _ _ _ _ hr')
      simp only [insertFreed, hnone] at ho ⊢
      cases ho
      exact inserted_right now now hkey
    · cases ho
  | insert j' =>
    cases hj
    simp only [parkStep, insertStep] at ho ⊢
    split at ho
    · rename_i hfind
      cases ho
      exact inserted_right now now hkey
    · cases ho
  | lost j' =>
    cases hj
    simp only [parkStep, lostStep] at ho ⊢
    split at ho
    · cases ho
      trivial
    · rename_i id hfind
      obtain ⟨r, hr, hk⟩ := findIdempotentRequest_some hfind
      simp only [hr] at ho ⊢
      cases ho
      simp only [stepInTime, hfind, hr] at hin
      exact reuseOutcome_right hr hk (by simpa using hin)
  | done => cases hj

/-- A park keeps its job until it answers. -/
theorem parkStep_job (now : Time) (s : Store) (p : ParkProc) :
    (parkStep D now s p).proc.job? = none ∨ (parkStep D now s p).proc.job? = p.job? := by
  cases p with
  | lookup j =>
    simp only [parkStep, lookupStep]
    split
    · exact .inr rfl
    · split
      · exact .inr rfl
      · split
        · exact .inr rfl
        · exact .inl rfl
  | expire j id =>
    simp only [parkStep, expireStep]
    split
    · exact .inr rfl
    · split
      · left
        unfold insertFreed
        split
        · rfl
        · split
          · rfl
          · split <;> rfl
      · exact .inr rfl
  | insert j =>
    simp only [parkStep, insertStep]
    split
    · exact .inl rfl
    · exact .inr rfl
  | lost j =>
    left
    simp only [parkStep, lostStep]
    split
    · rfl
    · split <;> rfl
  | done => exact .inl rfl

theorem parkStep_reads (hin : stepInTime now s p = true) :
    ParkReads (parkStep D now s p).store (parkStep D now s p).proc := by
  cases p with
  | lookup j =>
    simp only [parkStep, lookupStep]
    split
    · trivial
    · rename_i id hfind
      obtain ⟨r, hr, hk⟩ := findIdempotentRequest_some hfind
      rw [← lookup_inTime hin hfind] at hk
      obtain ⟨-, ht, hs, hkey⟩ := heldKey_eq_some.mp hk
      simp only [hr]
      split
      · exact ⟨r, hr, ht, hs, hkey⟩
      · trivial
  | expire j id =>
    simp only [parkStep, expireStep]
    split
    · trivial
    · split
      · unfold insertFreed
        split
        · trivial
        · split
          · trivial
          · split <;> trivial
      · trivial
  | insert j =>
    simp only [parkStep, insertStep]
    split <;> trivial
  | lost j =>
    simp only [parkStep, lostStep]
    split
    · trivial
    · split <;> trivial
  | done => trivial

end Steps

/-! ## Every interleaving -/

/-- The world keeps the invariants of the queue. -/
structure InOrder (w : World) : Prop where
  ok : WorldOk w
  sims : ∀ id, ∃ t, Sim w id t

theorem InOrder.move {w w' : World} {es : List Event} (h : InOrder w) (hm : WorldMove w w' es) :
    InOrder w' := by
  refine ⟨hm.ok h.ok h.sims, ?_⟩
  intro id
  obtain ⟨t, ht⟩ := h.sims id
  obtain ⟨t', hstep⟩ := hm.ticket h.ok ht
  exact ⟨t', hstep.sim⟩

section Machine
variable {D : Deployment}

/-- A queue action starts a keyed park, or it is the queue's own. -/
theorem parkWorldStep_act (w : ParkWorld) (a : Act) :
    (∃ args waits fqdn key, a = .create args waits fqdn ∧ args.idempotencyKey = some key ∧
      parkWorldStep D w (.act a) =
        (⟨w.world, w.parks ++ [.lookup ⟨args, key, waits, fqdn⟩]⟩, [])) ∨
    ((∀ args waits fqdn, a = .create args waits fqdn → args.idempotencyKey = none) ∧
      parkWorldStep D w (.act a) =
        (⟨(worldStep D w.world a).1, w.parks⟩, (worldStep D w.world a).2.map .queue)) := by
  cases a with
  | create args waits fqdn =>
    cases hkey : args.idempotencyKey with
    | some key =>
      left
      refine ⟨args, waits, fqdn, key, rfl, hkey, ?_⟩
      simp only [parkWorldStep, hkey]
    | none =>
      right
      refine ⟨?_, ?_⟩
      · intro args' waits' fqdn' heq
        cases heq
        exact hkey
      · simp only [parkWorldStep, hkey]
  | _ =>
    right
    refine ⟨?_, rfl⟩
    intro args waits fqdn heq
    cases heq

/-- A step of a park is a transaction of the queue, which may start the caller's waiter. -/
theorem afterPark_move {w : World} (hw : WorldOk w) (p : ParkProc) (now : Time) :
    WorldMove w (w.afterPark p (parkStep D now w.store p)) [] := by
  have hf := parkStep_file (D := D) now hw.files p
  unfold World.afterPark
  split
  · split
    · exact .spawn hf ⟨rfl, trivial, by simp⟩ (fun _ => rfl)
    · exact .tables hf (fun _ => rfl)
  · exact .tables hf (fun _ => rfl)

@[simp] theorem afterPark_store (w : World) (p : ParkProc) (r : ParkResult) :
    (w.afterPark p r).store = r.store := by
  unfold World.afterPark
  split
  · split <;> rfl
  · rfl

variable {w : ParkWorld}

theorem parkWorldStep_move (hw : WorldOk w.world) (a : ParkAct) :
    ∃ es, WorldMove w.world (parkWorldStep D w a).1.world es := by
  cases a with
  | act a =>
    obtain ⟨args, waits, fqdn, key, -, -, heq⟩ | ⟨-, heq⟩ := parkWorldStep_act (D := D) w a
    · rw [heq]
      exact ⟨[], .stay _⟩
    · rw [heq]
      exact ⟨_, worldStep_move D hw a⟩
  | advance pid now =>
    simp only [parkWorldStep]
    split
    · exact ⟨[], .stay _⟩
    · rename_i p hp
      exact ⟨[], afterPark_move hw p now⟩
  | crash pid => exact ⟨[], .stay _⟩

/-- What holds of every interleaving: the queue is in order, every park works under its own
key, and no two live requests hold one key. -/
structure ParkingOk (c : Config ParkWorld ParkEvent) : Prop where
  world : InOrder c.state.world
  keys : ∀ p ∈ c.state.parks, ∀ j, p.job? = some j → j.args.idempotencyKey = some j.key
  holder : OneHolder c.state.world.store

theorem parkWorldStep_parks {a : ParkAct} {q : ParkProc} (hq : q ∈ (parkWorldStep D w a).1.parks) :
    q ∈ w.parks ∨ q = .done ∨
      (∃ args waits fqdn key, a = .act (.create args waits fqdn) ∧
        args.idempotencyKey = some key ∧ q = .lookup ⟨args, key, waits, fqdn⟩) ∨
      (∃ pid now p, a = .advance pid now ∧ w.parks[pid]? = some p ∧
        q = (parkStep D now w.world.store p).proc) := by
  cases a with
  | act a =>
    obtain ⟨args, waits, fqdn, key, rfl, hkey, heq⟩ | ⟨-, heq⟩ :=
      parkWorldStep_act (D := D) w a
    · rw [heq] at hq
      rcases List.mem_append.mp hq with hold | hnew
      · exact .inl hold
      · rw [List.mem_singleton.mp hnew]
        exact .inr (.inr (.inl ⟨args, waits, fqdn, key, rfl, hkey, rfl⟩))
    · rw [heq] at hq
      exact .inl hq
  | advance pid now =>
    simp only [parkWorldStep] at hq
    split at hq
    · exact .inl hq
    · rename_i p hp
      rcases List.mem_or_eq_of_mem_set hq with hold | rfl
      · exact .inl hold
      · exact .inr (.inr (.inr ⟨pid, now, p, rfl, hp, rfl⟩))
  | crash pid =>
    rcases List.mem_or_eq_of_mem_set hq with hold | rfl
    · exact .inl hold
    · exact .inr (.inl rfl)

theorem parkWorldStep_advance_store {pid : Nat} {p : ParkProc} (now : Time)
    (hp : w.parks[pid]? = some p) :
    (parkWorldStep D w (.advance pid now)).1.world.store =
      (parkStep D now w.world.store p).store := by
  simp only [parkWorldStep, hp, afterPark_store]

theorem parkingOk_next (c : Config ParkWorld ParkEvent) (a : ParkAct) (h : ParkingOk c) :
    ParkingOk ((parking D).next c a) := by
  obtain ⟨es, hm⟩ := parkWorldStep_move (D := D) h.world.ok a
  refine ⟨h.world.move hm, ?_, ?_⟩
  · intro q hq j hj
    rcases parkWorldStep_parks hq with hold | rfl | ⟨args, waits, fqdn, key, -, hkey, rfl⟩ |
      ⟨pid, now, p, -, hp, rfl⟩
    · exact h.keys q hold j hj
    · cases hj
    · cases hj
      exact hkey
    -- a park keeps the job it began with
    · rcases parkStep_job (D := D) now c.state.world.store p with hnone | hjob
      · rw [hnone] at hj
        cases hj
      · exact h.keys p (List.mem_of_getElem? hp) j (hjob ▸ hj)
  · change OneHolder (parkWorldStep D c.state a).1.world.store
    cases a with
    | act a =>
      obtain ⟨args, waits, fqdn, key, -, -, heq⟩ | ⟨hnokey, heq⟩ :=
        parkWorldStep_act (D := D) c.state a
      · rw [heq]
        exact h.holder
      · rw [heq] at hm ⊢
        refine h.holder.step (hm.file h.world.ok h.world.sims) ?_
        intro id r hnone hr
        obtain ⟨args, waits, fqdn, s₁, hact, -, hfile, -⟩ :=
          worldStep_opened D h.world.ok.files hnone hr
        have hrow := congrArg File.row hfile
        rw [file_row, hr] at hrow
        cases hrow
        -- a row from outside the parks holds no key
        rw [insertedRow_heldKey, hnokey args waits fqdn hact]
        rfl
    | advance pid now =>
      simp only [parkWorldStep]
      split
      · exact h.holder
      · rename_i p hp
        rw [afterPark_store]
        exact parkStep_oneHolder h.holder (h.keys p (List.mem_of_getElem? hp))
    | crash pid => exact h.holder

theorem parkingOk_begin : ParkingOk (parking D).begin_ := by
  have hex := exclusive_begin D
  refine ⟨⟨hex.world, hex.sims⟩, ?_, UniqueIndex.nil _⟩
  intro p hp
  cases hp

/-! ## The answers -/

/-- The action is no step of a park on an unchecked path. -/
def answersInTime (c : Config ParkWorld ParkEvent) : ParkAct → Bool
  | .advance pid now =>
    match c.state.parks[pid]? with
    | none => true
    | some p => stepInTime now c.state.world.store p
  | _ => true

def ParkEvent.Right (D : Deployment) (s : Store) : ParkEvent → Prop
  | .queue _ => True
  | .answered j o now => o.Right D s j now

/-- What holds of the runs that stay off the unchecked paths. -/
structure ParkingRight (D : Deployment) (c : Config ParkWorld ParkEvent) : Prop extends
    ParkingOk c where
  reads : ∀ p ∈ c.state.parks, ParkReads c.state.world.store p
  answers : ∀ e ∈ c.events, e.Right D c.state.world.store

theorem ParkReads.step {s s' : Store} {p : ParkProc} (h : ParkReads s p)
    (hf : ∀ id, FileStep id (s.file id) (s'.file id)) : ParkReads s' p := by
  cases p with
  | expire j id =>
    obtain ⟨r, hr, ht, hs, hk⟩ := h
    obtain ⟨r', hr', hl⟩ := (hf id).later hr
    refine ⟨r', hr', ?_, ?_, ?_⟩
    · rw [← ht]; exact congrArg ParkedCall.tenantId hl.parked
    · rw [← hs]; exact congrArg ParkedCall.principalSub hl.parked
    · rw [← hk]; exact (hf id).idempotencyKey hr hr'
  | _ => trivial

theorem ParkOutcome.Right.step {s s' : Store} {j : ParkJob} {now : Time} {o : ParkOutcome}
    (h : o.Right D s j now) (hf : ∀ id, FileStep id (s.file id) (s'.file id)) :
    o.Right D s' j now := by
  have hlater : ∀ (id : Nat) (r : ApprovalRequest),
      (∃ r', s.requests[id]? = some r' ∧ Later r r') →
      ∃ r', s'.requests[id]? = some r' ∧ Later r r' := by
    rintro id r ⟨r₁, hr₁, hl₁⟩
    obtain ⟨r₂, hr₂, hl₂⟩ := (hf id).later hr₁
    exact ⟨r₂, hr₂, hl₁.trans hl₂⟩
  cases o with
  | parked id =>
    obtain ⟨r, hr, ht, hs, hk⟩ := h
    obtain ⟨r', hr', hl⟩ := (hf id).later hr
    refine ⟨r', hr', ?_, ?_, ?_⟩
    · rw [← ht]; exact congrArg ParkedCall.tenantId hl.parked
    · rw [← hs]; exact congrArg ParkedCall.principalSub hl.parked
    · rw [← hk]; exact (hf id).idempotencyKey hr hr'
  | reused id r | conflict id r => exact ⟨h.1, h.2.1, h.2.2.1, hlater id r h.2.2.2⟩
  | integrityError => trivial

theorem parkWorldStep_events {a : ParkAct} {e : ParkEvent} (he : e ∈ (parkWorldStep D w a).2) :
    (∃ e', e = .queue e') ∨
      ∃ pid now p j o, a = .advance pid now ∧ w.parks[pid]? = some p ∧ p.job? = some j ∧
        (parkStep D now w.world.store p).outcome = some o ∧ e = .answered j o now := by
  cases a with
  | act a =>
    obtain ⟨args, waits, fqdn, key, -, -, heq⟩ | ⟨-, heq⟩ := parkWorldStep_act (D := D) w a
    · rw [heq] at he
      cases he
    · rw [heq] at he
      obtain ⟨e', -, rfl⟩ := List.mem_map.mp he
      exact .inl ⟨e', rfl⟩
  | advance pid now =>
    simp only [parkWorldStep] at he
    split at he
    · cases he
    · rename_i p hp
      split at he
      · rename_i j o hj ho
        rw [List.mem_singleton.mp he]
        exact .inr ⟨pid, now, p, j, o, rfl, hp, hj, ho, rfl⟩
      · cases he
  | crash pid => cases he

theorem parkingRight_next (c : Config ParkWorld ParkEvent) (a : ParkAct) (h : ParkingRight D c)
    (hin : answersInTime c a = true) : ParkingRight D ((parking D).next c a) := by
  have hok := parkingOk_next (D := D) c a h.toParkingOk
  obtain ⟨es, hm⟩ := parkWorldStep_move (D := D) h.world.ok a
  have hf := hm.file h.world.ok h.world.sims
  have hstep : ∀ {pid : Nat} {now : Time} {p : ParkProc}, a = .advance pid now →
      c.state.parks[pid]? = some p → stepInTime now c.state.world.store p = true := by
    rintro pid now p rfl hp
    simpa [answersInTime, hp] using hin
  refine ⟨hok, ?_, ?_⟩
  · intro q hq
    rcases parkWorldStep_parks hq with hold | rfl | ⟨args, waits, fqdn, key, -, -, rfl⟩ |
      ⟨pid, now, p, ha, hp, rfl⟩
    · exact (h.reads q hold).step hf
    · trivial
    · trivial
    · have hreads := parkStep_reads (D := D) (hstep ha hp)
      subst ha
      rw [← parkWorldStep_advance_store (D := D) now hp] at hreads
      exact hreads
  · intro e he
    rw [Machine.next_events] at he
    rcases List.mem_append.mp he with hold | hnew
    · cases e with
      | queue e => trivial
      | answered j o now => exact ParkOutcome.Right.step (h.answers _ hold) hf
    · obtain ⟨e', rfl⟩ | ⟨pid, now, p, j, o, ha, hp, hj, ho, rfl⟩ := parkWorldStep_events hnew
      · trivial
      · have hmem := List.mem_of_getElem? hp
        have hright := parkStep_right h.holder hj (h.keys p hmem j hj) (h.reads p hmem)
          (hstep ha hp) ho
        subst ha
        rw [← parkWorldStep_advance_store (D := D) now hp] at hright
        exact hright

theorem parkingRight_begin : ParkingRight D (parking D).begin_ := by
  refine ⟨parkingOk_begin, ?_, ?_⟩
  · intro p hp; cases hp
  · intro e he; cases he

/-- In every interleaving of keyed parks with the other actions of the queue, each key has at
most one live request. As long as no lookup for somebody else finds a request of the
operator's own and no lost insert runs into an overdue row, a park hands back the request
that holds its key exactly for the same call, names it in a conflict for another call, and
never hands back an overdue one. -/
theorem idempotent_parks (acts : List ParkAct) :
    OneHolder ((parking D).run (parking D).begin_ acts).state.world.store ∧
      ((parking D).Along (fun c a => answersInTime c a = true) (parking D).begin_ acts →
        ∀ e ∈ ((parking D).run (parking D).begin_ acts).events,
          e.Right D ((parking D).run (parking D).begin_ acts).state.world.store) := by
  refine ⟨((parking D).run_induct parkingOk_next parkingOk_begin acts).holder, ?_⟩
  intro h
  exact ((parking D).along_induct parkingRight_next parkingRight_begin h).answers

end Machine

/-! ## Two small runs -/

/-- A keyed call of the person with this sub, for themselves or for somebody else, that waits
for five time units at most. -/
def keyedCall (sub : String) (requester : Option ResumeRequester) (vm : String) : CreateArgs :=
  { smallCall with
    operator := person sub .operator
    targetId := none
    params := [(vm, .null)]
    paramsHash := vm
    expiresAt := some 5
    idempotencyKey := some "retry-1"
    requester := requester }

/-- A park that is not interrupted. -/
def parkAt (pid : Nat) (now : Time) (args : CreateArgs) : List ParkAct :=
  [.act (.create args false none), .advance pid now, .advance pid now, .advance pid now]

/-- One person parks, retries, and uses the key again for another call. -/
def ownRetries : List ParkAct :=
  parkAt 0 0 (keyedCall "asker" none "vm-7") ++ parkAt 1 1 (keyedCall "asker" none "vm-7") ++
    parkAt 2 2 (keyedCall "asker" none "vm-8")

theorem idempotent_parks_own_retries :
    (parking smallDeployment).Along (fun c a => answersInTime c a = true)
        (parking smallDeployment).begin_ ownRetries ∧
      ∀ e ∈ ((parking smallDeployment).run (parking smallDeployment).begin_ ownRetries).events,
        e.Right smallDeployment ((parking smallDeployment).run (parking smallDeployment).begin_
          ownRetries).state.world.store := by
  have hin : (parking smallDeployment).Along (fun c a => answersInTime c a = true)
      (parking smallDeployment).begin_ ownRetries := by decide
  exact ⟨hin, (idempotent_parks ownRetries).2 hin⟩

/-- The event hands back a row that is overdue. -/
def ParkEvent.handsBackOverdue : ParkEvent → Bool
  | .answered j (.reused _ r) now => isOverduePending j.args.settings now r
  | _ => false

theorem ParkEvent.Right.not_overdue {D : Deployment} {e : ParkEvent} (h : e.Right D s) :
    e.handsBackOverdue = false := by
  cases e with
  | queue e => rfl
  | answered j o now =>
    cases o with
    | reused id r => exact h.2.2.1
    | _ => rfl

/-- A reviewer parks a step for the requester, and parks it again when it is long overdue: the
lookup asks for the reviewer's own requests and finds none. -/
def parksForRequester : List ParkAct :=
  parkAt 0 0 (keyedCall "reviewer" (some ⟨"asker", none⟩) "vm-7") ++
    parkAt 1 100 (keyedCall "reviewer" (some ⟨"asker", none⟩) "vm-7")

/-- A park for somebody else hands back a request whose deadline is long past. -/
theorem overdue_request_returned :
    ¬∀ acts, ∀ e ∈ ((parking smallDeployment).run (parking smallDeployment).begin_ acts).events,
      e.Right smallDeployment ((parking smallDeployment).run (parking smallDeployment).begin_
        acts).state.world.store := by
  intro h
  have hany : ((parking smallDeployment).run (parking smallDeployment).begin_
      parksForRequester).events.any (·.handsBackOverdue) = true := by decide
  obtain ⟨e, he, hover⟩ := List.any_eq_true.mp hany
  rw [(h parksForRequester e he).not_overdue] at hover
  cases hover

end Meho.Approval
