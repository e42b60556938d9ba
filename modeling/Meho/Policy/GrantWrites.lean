import Meho.Lib.History
import Meho.Lib.Versions
import Meho.Policy.Names

/- Writing standing grants (operations/service_grants.py, db/models.py).

Creating, renewing and revoking run in transactions of several statements, and
any number of them may be open. A transaction is a `Proc`: the statements it has
still to run, in the order of the source, and what it answered. `GrantAct.exec`
runs one statement of one of them; a statement that meets a row another
transaction has written waits, that is, changes nothing and is tried again.
`GrantAct.lose` is a transaction the database rolls back by itself, for a lost
connection or a deadlock.

The unique indexes of a grant table have a key for a grant of one target and for
a grant without a target (`uqKey`). A grant that selects targets has none: its
insert rests on the task `reject`, which reads what is committed. Two
transactions that have both passed it before either commits both insert
(`selector_race`). When no such check runs while another transaction that passed
the same one is open, a key has one active grant (`one_active_grant`).

Correspondence: `ServicePrincipalGrantService.create` ↔ `GrantAct.create`,
`renew_delete_grants` ↔ `GrantAct.renew` (its reads and reviews; the writes are the
tasks `revokeOld` and `mark`), `_insert` ↔ the tasks `mark`, `reject` and `add`,
`_mark_ended_grants_replaced` ↔ `endedGrant`, `_reject_duplicate_selector` ↔
`sameSelector`, `_standing_grant_table_args` ↔ `uqKey`; what is not listed keeps its
name. What `_review` decides is an argument of the actions, and the order of a table
stands for `created_at`. -/
namespace Meho.Policy
open Meho.Lib

/-! ## Rows and payloads -/

/-- The two grant tables. -/
inductive GrantModel where
  | servicePrincipalGrant
  | sandboxDeleteGrant
  deriving DecidableEq, Repr

/-- What a grant is for. -/
structure GrantKey where
  tenantId : Nat
  principalSub : String
  opId : String
  connectorId : String
  targetId : Option Nat
  targetProduct : Option String
  targetNamePattern : Option String
  deriving DecidableEq, Repr

/-- The grant selects targets. -/
def GrantKey.isSelector (k : GrantKey) : Bool :=
  k.targetProduct.isSome || k.targetNamePattern.isSome

/-- The body of a create. A selector stands in place of a target. -/
structure ServiceGrantCreate where
  principalSub : String
  opId : String
  connectorId : String
  targetId : Option Nat
  targetProduct : Option String
  targetNamePattern : Option String
  reason : String
  expiresAt : Option Time
  exclusive : targetId = none ∨ (targetProduct = none ∧ targetNamePattern = none)

def ServiceGrantCreate.isSelector (p : ServiceGrantCreate) : Bool :=
  p.targetProduct.isSome || p.targetNamePattern.isSome

def ServiceGrantCreate.key (p : ServiceGrantCreate) (tenantId : Nat) : GrantKey where
  tenantId := tenantId
  principalSub := p.principalSub
  opId := p.opId
  connectorId := p.connectorId
  targetId := p.targetId
  targetProduct := p.targetProduct
  targetNamePattern := p.targetNamePattern

/-- One row of a grant table. -/
structure StandingGrant where
  model : GrantModel
  key : GrantKey
  reason : String
  createdBySub : String
  expiresAt : Option Time
  revokedAt : Option Time
  revokedBySub : Option String
  revokedReason : Option String
  replacedAt : Option Time
  deriving DecidableEq, Repr

/-- Neither revoked nor replaced. -/
def StandingGrant.isActive (g : StandingGrant) : Bool :=
  g.revokedAt.isNone && g.replacedAt.isNone

/-- The key an active grant holds in its table. -/
def activeKey (g : StandingGrant) : Option (GrantModel × GrantKey) :=
  if g.isActive then some (g.model, g.key) else none

/-- The columns of a unique index, with its table. -/
structure UqKey where
  model : GrantModel
  tenantId : Nat
  principalSub : String
  opId : String
  connectorId : String
  targetId : Option Nat
  deriving DecidableEq

/-- `uq_<table>_targeted` and `uq_<table>_targetless`, which share no key. -/
def uqKey (g : StandingGrant) : Option UqKey :=
  if g.isActive && (g.key.targetId.isSome ||
      (g.key.targetProduct.isNone && g.key.targetNamePattern.isNone)) then
    some ⟨g.model, g.key.tenantId, g.key.principalSub, g.key.opId, g.key.connectorId,
      g.key.targetId⟩
  else none

/-- The row `_insert` adds. -/
def newGrant (tenantId : Nat) (createdBySub : String) (p : ServiceGrantCreate)
    (model : GrantModel) : StandingGrant where
  model := model
  key := p.key tenantId
  reason := p.reason
  createdBySub := createdBySub
  expiresAt := p.expiresAt
  revokedAt := none
  revokedBySub := none
  revokedReason := none
  replacedAt := none

/-- The payload a renewal makes of an old row; a row with a target and a selector has none. -/
def renewalPayload (expiresAt : Option Time) (reason : Option String) (old : StandingGrant) :
    Option ServiceGrantCreate :=
  if h : old.key.targetId = none ∨
      (old.key.targetProduct = none ∧ old.key.targetNamePattern = none) then
    some {
      principalSub := old.key.principalSub
      opId := old.key.opId
      connectorId := old.key.connectorId
      targetId := old.key.targetId
      targetProduct := old.key.targetProduct
      targetNamePattern := old.key.targetNamePattern
      reason := (reason.filter (· ≠ "")).getD old.reason
      expiresAt := expiresAt
      exclusive := h }
  else none

/-! ## The conditions of the statements -/

/-- The grant had an end and it has passed. -/
def StandingGrant.ended (now : Time) (g : StandingGrant) : Bool :=
  match g.expiresAt with
  | none => false
  | some expiresAt => decide (expiresAt ≤ now)

def endedGrant (tenantId : Nat) (p : ServiceGrantCreate) (model : GrantModel) (now : Time)
    (g : StandingGrant) : Bool :=
  g.model = model && g.key = p.key tenantId && g.isActive && g.ended now

def sameSelector (tenantId : Nat) (p : ServiceGrantCreate) (model : GrantModel)
    (g : StandingGrant) : Bool :=
  g.model = model && g.key.tenantId = tenantId && g.key.principalSub = p.principalSub &&
    g.key.opId = p.opId && g.key.connectorId = p.connectorId && g.key.targetId.isNone &&
    g.key.targetProduct = p.targetProduct && g.key.targetNamePattern = p.targetNamePattern &&
    g.isActive

/-- The delete grants a renewal takes up. It does not ask for `replaced_at`. -/
def renewable (tenantId : Nat) (principalSub : String) (now : Time) (g : StandingGrant) : Bool :=
  g.model = .sandboxDeleteGrant && g.key.tenantId = tenantId &&
    g.key.principalSub = principalSub && g.revokedAt.isNone && !g.ended now

/-- The row a revoke finds in the table `model`. -/
def revocable (tenantId grantId : Nat) (model : GrantModel) (id : Nat) (g : StandingGrant) : Bool :=
  g.model = model && g.key.tenantId = tenantId && id = grantId && g.revokedAt.isNone

def StandingGrant.replace (now : Time) (g : StandingGrant) : StandingGrant :=
  { g with replacedAt := some now }

def StandingGrant.revoke (now : Time) (revokedBySub : String) (reason : Option String)
    (g : StandingGrant) : StandingGrant :=
  { g with revokedAt := some now, revokedBySub := some revokedBySub, revokedReason := reason }

def grantModels (sandboxModeActive : Bool) : List GrantModel :=
  if sandboxModeActive then [.servicePrincipalGrant, .sandboxDeleteGrant]
  else [.servicePrincipalGrant]

/-! ## The texts of the refusals -/

/-- `repr` of an optional text. -/
def quotedOption : Option String → String
  | none => "None"
  | some s => quoted s

def duplicateGrant (p : ServiceGrantCreate) : String :=
  "an active grant for principal " ++ quoted p.principalSub ++ " on op " ++ quoted p.opId ++
    " / connector " ++ quoted p.connectorId ++ " / target " ++
    ((p.targetId.map toString).getD "None") ++ " already exists; revoke it first"

def duplicateSelector (p : ServiceGrantCreate) : String :=
  "an active selector grant for principal " ++ quoted p.principalSub ++ " on op " ++
    quoted p.opId ++ " / connector " ++ quoted p.connectorId ++ " / target_product=" ++
    quotedOption p.targetProduct ++ " / target_name_pattern=" ++
    quotedOption p.targetNamePattern ++ " already exists; revoke it first"

def revokedMeanwhile (oldId : Nat) : String :=
  "delete grant " ++ toString oldId ++
    " was revoked while the set was reviewed; review the set again"

def noLongerDelete (p : ServiceGrantCreate) : String :=
  "op " ++ quoted p.opId ++ " on connector " ++ quoted p.connectorId ++
    " no longer has a delete sign, so its grant is not a delete grant any more. Revoke it and " ++
    "make an ordinary grant instead."

def nothingToRenew (principalSub : String) : String :=
  "service principal " ++ quoted principalSub ++ " has no live delete grant to renew"

def targetAndSelector : String :=
  "target_id is mutually exclusive with a target selector (target_product / " ++
    "target_name_pattern); a selector resolves at dispatch time in place of a concrete target " ++
    "— set one or the other, not both"

def notSandbox : String :=
  "this instance is not in sandbox mode, so it has no delete grants to renew"

def renewedInConsoleOnly : String :=
  "delete grants are renewed only in the web console, by a tenant admin"

/-! ## Transactions -/

/-- One statement still to run. `mark`, `reject` and `add` are the three of `_insert`. -/
inductive Task where
  | mark (model : GrantModel) (p : ServiceGrantCreate)
  | reject (model : GrantModel) (p : ServiceGrantCreate)
  | add (model : GrantModel) (p : ServiceGrantCreate)
  | revokeOld (oldId : Nat) (now : Time)
  | revokeIn (model : GrantModel) (grantId : Nat) (reason : Option String) (now : Time)

/-- How a transaction ended. -/
inductive Outcome where
  | committed (revoked : Bool)
  | refused (reason : String)
  | lost

/-- One transaction. `passed` keeps the duplicate checks it has passed. -/
structure Proc where
  tenantId : Nat
  bySub : String
  todo : List Task
  passed : List (GrantModel × GrantKey)
  revoked : Bool
  outcome : Option Outcome

/-- A transaction that has not begun to write. -/
def Proc.begin_ (tenantId : Nat) (bySub : String) (todo : List Task) : Proc :=
  ⟨tenantId, bySub, todo, [], false, none⟩

/-- A call that was refused before it wrote. -/
def Proc.refused (tenantId : Nat) (bySub reason : String) : Proc :=
  ⟨tenantId, bySub, [], [], false, some (.refused reason)⟩

abbrev Grants := List (Slot StandingGrant)

/-- What the unique indexes answer to an insert. -/
def uqAnswer (tx : Nat) (g : StandingGrant) (slots : Grants) : IndexAnswer :=
  match uqKey g with
  | none => .free
  | some k => indexAnswer uqKey tx k slots

/-- The transaction rolls back and raises. -/
def Proc.raise (pr : Proc) (tx : Nat) (reason : String) (slots : Grants) : Grants × Proc :=
  (slots.map (·.abort tx), { pr with outcome := some (.refused reason) })

/-- The next statement of an open transaction; none when it waits. -/
def Proc.exec (pr : Proc) (tx : Nat) (now : Time) (slots : Grants) : Option (Grants × Proc) :=
  match pr.todo with
  | [] => some (slots.map (·.commit tx), { pr with outcome := some (.committed pr.revoked) })
  | .mark model p :: rest =>
    (update tx (fun _ => endedGrant pr.tenantId p model now) (·.replace now) slots).map fun r =>
      (r.1, { pr with todo := (if p.isSelector then .reject model p else .add model p) :: rest })
  | .reject model p :: rest =>
    if slots.any fun s => (s.seen tx).any (sameSelector pr.tenantId p model) then
      some (pr.raise tx (duplicateSelector p) slots)
    else
      some (slots, { pr with
        todo := .add model p :: rest
        passed := (model, p.key pr.tenantId) :: pr.passed })
  | .add model p :: rest =>
    let row := newGrant pr.tenantId pr.bySub p model
    match uqAnswer tx row slots with
    | .wait => none
    | .duplicate => some (pr.raise tx (duplicateGrant p) slots)
    | .free => some (slots ++ [.fresh tx row], { pr with todo := rest })
  | .revokeOld oldId revokedAt :: rest =>
    (update tx (revocable pr.tenantId oldId .sandboxDeleteGrant)
        (·.revoke revokedAt pr.bySub (some "renewed")) slots).map fun r =>
      if r.2 then (r.1, { pr with todo := rest })
      else pr.raise tx (revokedMeanwhile oldId) slots
  | .revokeIn model grantId reason revokedAt :: rest =>
    (update tx (revocable pr.tenantId grantId model) (·.revoke revokedAt pr.bySub reason)
        slots).map fun r =>
      -- the first table that has the row ends the search
      if r.2 then (r.1, { pr with todo := [], revoked := true })
      else (r.1, { pr with todo := rest })

/-! ## The system -/

/-- The grant rows and the calls under way. -/
structure GrantWorld where
  slots : Grants
  procs : List Proc

/-- What the create-time review answers: the table, or its refusal. -/
abbrev Review := ServiceGrantCreate → Except String GrantModel

/-- A call of the grant service, its next statement or its loss. -/
inductive GrantAct where
  | create (tenantId : Nat) (createdBySub : String) (p : ServiceGrantCreate) (review : Review)
  | renew (tenantId : Nat) (principalSub renewedBySub : String) (expiresAt : Option Time)
      (reason : Option String) (sandboxModeActive fromConsole : Bool) (review : Review)
      (now : Time)
  | revoke (tenantId grantId : Nat) (revokedBySub : String) (reason : Option String)
      (sandboxModeActive : Bool) (now : Time)
  | exec (pid : Nat) (now : Time)
  | lose (pid : Nat)

/-- Every old row reviewed as a new delete grant: the writes of the renewal, or a refusal. -/
def renewalTasks (review : Review) (expiresAt : Option Time) (reason : Option String) (now : Time) :
    List (Nat × StandingGrant) → Except String (List Task)
  | [] => .ok []
  | (id, old) :: rest =>
    match renewalPayload expiresAt reason old with
    | none => .error targetAndSelector
    | some p =>
      match review p with
      | .error e => .error e
      | .ok .servicePrincipalGrant => .error (noLongerDelete p)
      | .ok .sandboxDeleteGrant =>
        match renewalTasks review expiresAt reason now rest with
        | .error e => .error e
        | .ok tasks => .ok (.revokeOld id now :: .mark .sandboxDeleteGrant p :: tasks)

/-- The committed rows with their ids. -/
def GrantWorld.rows (w : GrantWorld) : List (Nat × StandingGrant) :=
  (w.slots.mapIdx fun i (s : Slot StandingGrant) => s.committed.map fun g => (i, g)).filterMap id

def GrantWorld.renewal (w : GrantWorld) (tenantId : Nat) (principalSub : String)
    (expiresAt : Option Time) (reason : Option String) (sandboxModeActive fromConsole : Bool)
    (review : Review) (now : Time) : Except String (List Task) :=
  if !sandboxModeActive then .error notSandbox
  else if !fromConsole then .error renewedInConsoleOnly
  else
    let oldRows := w.rows.filter fun r => renewable tenantId principalSub now r.2
    if oldRows.isEmpty then .error (nothingToRenew principalSub)
    else renewalTasks review expiresAt reason now oldRows

def GrantWorld.start (w : GrantWorld) (pr : Proc) : GrantWorld :=
  { w with procs := w.procs ++ [pr] }

/-- A call that was planned, or refused. -/
def planned (tenantId : Nat) (bySub : String) : Except String (List Task) → Proc
  | .ok tasks => .begin_ tenantId bySub tasks
  | .error e => .refused tenantId bySub e

def GrantWorld.step (w : GrantWorld) : GrantAct → GrantWorld
  | .create tenantId createdBySub p review =>
    w.start (planned tenantId createdBySub ((review p).map fun model => [.mark model p]))
  | .renew tenantId principalSub renewedBySub expiresAt reason sandboxModeActive fromConsole review
      now =>
    w.start (planned tenantId renewedBySub
      (w.renewal tenantId principalSub expiresAt reason sandboxModeActive fromConsole review now))
  | .revoke tenantId grantId revokedBySub reason sandboxModeActive now =>
    w.start (.begin_ tenantId revokedBySub
      ((grantModels sandboxModeActive).map fun model => .revokeIn model grantId reason now))
  | .exec pid now =>
    match w.procs[pid]? with
    | none => w
    | some pr =>
      if pr.outcome.isSome then w
      else
        match pr.exec pid now w.slots with
        | none => w
        | some (slots, pr') => { slots := slots, procs := w.procs.set pid pr' }
  | .lose pid =>
    match w.procs[pid]? with
    | none => w
    | some pr =>
      if pr.outcome.isSome then w
      else
        -- a lost call rolls its transaction back
        { slots := w.slots.map (·.abort pid)
          procs := w.procs.set pid { pr with outcome := some .lost } }

def grantMachine : Machine GrantWorld GrantAct Empty where
  start := { slots := [], procs := [] }
  step w a := (w.step a, [])

/-! ## The condition -/

/-- The duplicate check that the next statement of the transaction makes. -/
def GrantWorld.checking (w : GrantWorld) (pid : Nat) : Option (GrantModel × GrantKey) :=
  match w.procs[pid]? with
  | none => none
  | some pr =>
    if pr.outcome.isSome then none
    else
      match pr.todo with
      | .reject model p :: _ => some (model, p.key pr.tenantId)
      | _ => none

/-- Another open transaction has passed the check of `k`. -/
def GrantWorld.inFlight (w : GrantWorld) (pid : Nat) (k : GrantModel × GrantKey) : Bool :=
  (w.procs.mapIdx fun i (pr : Proc) =>
    i != pid && pr.outcome.isNone && pr.passed.contains k).any id

/-- The step runs no duplicate check of a selector while another open transaction has passed the
same one. -/
def ChecksApart (c : Config GrantWorld Empty) : GrantAct → Prop
  | .exec pid _ =>
    match c.state.checking pid with
    | none => True
    | some k => c.state.inFlight pid k = false
  | _ => True

instance ChecksApart.decidable (c : Config GrantWorld Empty) (a : GrantAct) :
    Decidable (ChecksApart c a) := by
  unfold ChecksApart
  split
  · split <;> infer_instance
  · infer_instance

end Meho.Policy
