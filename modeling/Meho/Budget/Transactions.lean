import Meho.Budget.Enforcement
import Meho.Lib.History
import Meho.Lib.Parties

/- Runs and limits in concurrent transactions (operations/identity_budget.py).

The transaction of a run goes through the three kinds of windows: it reads the bucket,
inserts one when there is none, adds the run's use to what it read, and writes the sums.
That of `set_limits` does so for one kind. Statements read what is committed and what the
transaction wrote itself. A row that an open transaction wrote is locked, and an insert
waits for an open insert of its key; when the key is taken then, the call starts again.

Correspondence: the `SELECT`, the `INSERT` of `session.flush()` and the `UPDATE` of the next
flush in `_get_or_create_bucket`, `apply_consumption`, `set_limits` ↔ the phases of
`statement`. The session writes a changed row before its next `SELECT` and at the end, and
only the columns whose value changed. A transaction may be rolled back at any time. -/
namespace Meho.Budget
open Meho.Lib

/-! ## One transaction -/

/-- What a transaction is to write. -/
inductive Work where
  | run (run : Run)
  | limits (c : LimitChange)

namespace Work

def tenantId : Work → Nat
  | .run r => r.tenantId
  | .limits c => c.tenantId

def principalSub : Work → String
  | .run r => r.principalSub
  | .limits c => c.principalSub

def now : Work → DateTime
  | .run r => r.now
  | .limits c => c.now

/-- The kinds of windows whose buckets are written, in order. -/
def kinds : Work → List WindowKind
  | .run _ => allWindowKinds
  | .limits c => [c.windowKind]

def key (work : Work) (kind : WindowKind) : Except WindowError (BucketKey × Time) :=
  bucketKey work.tenantId work.principalSub kind work.now

end Work

/-- The columns of the row after an `UPDATE` by a run that read `read`. -/
def updateConsumed (run : Run) (read row : Consumed) : Consumed where
  tokens := if run.tokens = 0 then row.tokens else (charged run read).tokens
  cost := if run.cost.coefficient = 0 then row.cost else (charged run read).cost
  requests := if run.requests = 0 then row.requests else (charged run read).requests

/-- A limit that was read as the same value is not written. -/
def updateLimits (c : LimitChange) (read row : Limits) : Limits where
  tokenLimit :=
    match c.tokenLimit with
    | some x => if read.tokenLimit = some x then row.tokenLimit else some x
    | none => row.tokenLimit
  costLimit :=
    match c.costLimit with
    | some x => if x.equals read.costLimit then row.costLimit else some (storedMillionths x)
    | none => row.costLimit
  requestLimit :=
    match c.requestLimit with
    | some x => if read.requestLimit = some x then row.requestLimit else some x
    | none => row.requestLimit

def Work.update (work : Work) (read row : Bucket) : Bucket :=
  match work with
  | .run r => { row with consumed := updateConsumed r read.consumed row.consumed }
  | .limits c => { row with limits := updateLimits c read.limits row.limits }

/-- What comes next for the first kind that is left. -/
inductive Phase where
  | select
  | insert (key : BucketKey) (windowEnd : Time)
  | update (key : BucketKey) (read : Bucket)

/-- An open transaction, with the rows it wrote. -/
structure Tx where
  work : Work
  todo : List WindowKind
  phase : Phase
  written : Buckets

def Tx.start (work : Work) : Tx := ⟨work, work.kinds, .select, fun _ => none⟩

/-- What the transaction sees of a key. -/
def Tx.view (tx : Tx) (rows : Buckets) (key : BucketKey) : Option Bucket :=
  (tx.written key).or (rows key)

def Tx.write (tx : Tx) (key : BucketKey) (bucket : Bucket) : Buckets :=
  Function.update tx.written key (some bucket)

/-- The next statement, where `held` are the rows that other transactions have written; `none`
when it raises. -/
def Tx.statement (rows : Buckets) (held : BucketKey → Bool) (tx : Tx) : Option Tx :=
  match tx.todo with
  | [] => some tx
  | kind :: rest =>
    match tx.phase with
    | .select =>
      match tx.work.key kind with
      | .error _ => none
      | .ok (key, windowEnd) =>
        match tx.view rows key with
        | some row => some { tx with phase := .update key row }
        | none => some { tx with phase := .insert key windowEnd }
    | .insert key windowEnd =>
      if held key then some tx
      -- `IntegrityError`: somebody else's insert is committed
      else if (rows key).isSome then some (Tx.start tx.work)
      else
        let row := newBucket windowEnd
        some { tx with phase := .update key row, written := tx.write key row }
    | .update key read =>
      if held key then some tx
      else
        match tx.view rows key with
        | some row =>
          some { tx with todo := rest, phase := .select, written := tx.write key (tx.work.update read row) }
        | none => none

/-! ## All transactions -/

/-- The committed rows and the transactions, `none` for one that is over. -/
structure Database where
  rows : Buckets
  txs : List (Option Tx)

/-- A statement of one transaction, or its end. -/
inductive TxAction where
  | begin_ (work : Work)
  | statement (tx : Nat)
  | commit (tx : Nat)
  | rollback (tx : Nat)

/-- The transaction of a number, while it is open. -/
def Database.tx (s : Database) (i : Nat) : Option Tx := s.txs[i]?.join

/-- Another open transaction has written the row. -/
def Database.held (s : Database) (i : Nat) (key : BucketKey) : Bool :=
  (List.range s.txs.length).any fun j =>
    j ≠ i && (s.tx j).any fun tx => (tx.written key).isSome

def commitRows (rows written : Buckets) : Buckets := fun key => (written key).or (rows key)

def Database.step (s : Database) : TxAction → Database × List Work
  | .begin_ work => ({ s with txs := s.txs ++ [some (Tx.start work)] }, [])
  | .statement i =>
    match s.tx i with
    | none => (s, [])
    | some tx =>
      ({ s with txs := Parties.moveOne s.txs i (tx.statement s.rows (s.held i)) }, [])
  | .commit i =>
    match s.tx i with
    | none => (s, [])
    | some tx =>
      if tx.todo = [] then
        ({ rows := commitRows s.rows tx.written, txs := Parties.moveOne s.txs i none }, [tx.work])
      else (s, [])
  | .rollback i => ({ s with txs := Parties.moveOne s.txs i none }, [])

/-- The events are what is committed, in order. -/
def database : Machine Database TxAction Work where
  start := ⟨fun _ => none, []⟩
  step := Database.step

/-- The runs among what is committed. -/
def committedRuns (events : List Work) : List Run :=
  events.filterMap fun
    | .run r => some r
    | .limits _ => none

end Meho.Budget
