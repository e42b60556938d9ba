import Mathlib.Data.Finset.Card
import Mathlib.Data.Finset.Dedup
import Meho.Auth.Operator
import Meho.Lib.Query

/- The topology diff between two instants (topology/query.py).

The statement of each side fetches the history rows of the window for the first
`diffFetchResourceCap` groups, and groups by the id column, or by the row itself where
that is null. Deleting a node or an edge nulls that column in all its rows, so the fold
groups the fetched rows again, by an id it recovers from the snapshots, and answers one
entry for each group, `diffHardCap` at most.

Correspondence: `_pick_kind_for_entry` and `_pick_name_for_node_entry` ↔ `pickField`,
`_all_window_rows_are_last_seen_only` ↔ `allRowsLastSeenOnly`, `_DIFF_NODE_SQL` and
`_DIFF_EDGE_SQL` ↔ `diffSql`; what is not listed keeps its name. Python's `json.loads`,
`str` and `UUID` on what a snapshot holds, and its equality of values, are parameters. -/
namespace Meho.Topology
open Meho.Lib

/-! ## History rows -/

inductive ChangeKind where
  | created
  | updated
  | removed
  deriving DecidableEq, Repr

def ChangeKind.value : ChangeKind → String
  | .created => "created"
  | .updated => "updated"
  | .removed => "removed"

/-- The history table that a row comes from. -/
inductive Source where
  | node
  | edge
  deriving DecidableEq, Repr

def Source.value : Source → String
  | .node => "node"
  | .edge => "edge"

/-- One row of `graph_node_history` or `graph_edge_history`, as the diff reads it. -/
structure HistoryRow where
  historyId : Nat
  tenantId : Nat
  resourceId : Option Nat
  changeKind : ChangeKind
  snapshot : Json
  validFrom : Time

/-- The two history tables. -/
structure Histories where
  node : List HistoryRow
  edge : List HistoryRow

def Histories.side (h : Histories) : Source → List HistoryRow
  | .node => h.node
  | .edge => h.edge

/-- What of Python reads a snapshot: `json.loads`, `str`, `UUID` and `==`. -/
structure Reader where
  loads : String → Option Json
  str : Json → String
  uuid : String → Option Nat
  eq : Json → Json → Bool

/-! ## Snapshots -/

section Snapshots
variable (py : Reader)

def deserialiseSnapshot : Json → Option Dict
  | .obj fields => some fields
  | .str text => match py.loads text with
    | some (.obj fields) => some fields
    | _ => none
  | _ => none

/-- The `before` or the `after` of a snapshot. -/
def snapshotSide (snapshot : Option Dict) (key : String) : Option Dict :=
  match snapshot.bind (dictGet · key) with
  | some (.obj fields) => some fields
  | _ => none

/-- Both sides have the same keys and, `last_seen` apart, the same values. -/
def isLastSeenOnlyChange (snapshot : Option Dict) : Bool :=
  match snapshotSide snapshot "before", snapshotSide snapshot "after" with
  | some before, some after =>
    before.all (fun e => after.any (·.1 = e.1)) && after.all (fun e => before.any (·.1 = e.1)) &&
      before.all fun e => e.1 = "last_seen" || py.eq e.2 ((dictGet after e.1).getD .null)
  | _, _ => false

/-- A column of a resource's last row: from the state before it for a removed one, else from
the state after it, else from the state before it. -/
def pickField (field : String) (rows : List HistoryRow) (netKind : ChangeKind) : Option String :=
  let snapshot := rows.getLast?.bind fun r => deserialiseSnapshot py r.snapshot
  let side (key : String) : Option String :=
    (snapshotSide snapshot key).bind fun s => (dictGet s field).map py.str
  (if netKind = .removed then side "before" else none).or ((side "after").or (side "before"))

/-- `_recover_resource_id`: the first id that a side carries. -/
def recoverResourceId (row : HistoryRow) : Option Nat :=
  let snapshot := deserialiseSnapshot py row.snapshot
  let raw (key : String) : Option Json :=
    match (snapshotSide snapshot key).bind (dictGet · "id") with
    | some .null => none
    | other => other
  ((raw "before").or (raw "after")).bind fun id => py.uuid (py.str id)

end Snapshots

/-! ## The statement -/

/-- `valid_from > ts1 AND valid_from <= ts2`. -/
def windowed (tenantId : Nat) (ts1 ts2 : Time) (rows : List HistoryRow) : List HistoryRow :=
  rows.filter fun r => r.tenantId = tenantId && decide (ts1 < r.validFrom) && decide (r.validFrom ≤ ts2)

/-- `(valid_from, history_id)`. -/
def HistoryRow.key (r : HistoryRow) : Time ×ₗ Nat := toLex (r.validFrom, r.historyId)

/-- `COALESCE(CAST(node_id AS TEXT), 'h:' || CAST(history_id AS TEXT))`. -/
inductive GrpKey where
  | id (resourceId : Nat)
  | history (historyId : Nat)
  deriving DecidableEq, Repr

def HistoryRow.grpKey (r : HistoryRow) : GrpKey :=
  match r.resourceId with
  | some id => .id id
  | none => .history r.historyId

/-- The key of the first row of a row's group: `MIN(valid_from)` and
`FIRST_VALUE(history_id)` over the partition. -/
def grpFirst (rows : List HistoryRow) (r : HistoryRow) : Time ×ₗ Nat :=
  match (orderBy HistoryRow.key (rows.filter fun x => x.grpKey = r.grpKey)).head? with
  | some first => first.key
  | none => r.key

/-- `DENSE_RANK() OVER (ORDER BY grp_first_valid_from, grp_first_history_id)`. -/
def grpRank (rows : List HistoryRow) (r : HistoryRow) : Nat :=
  ((rows.map (grpFirst rows)).dedup.filter (· < grpFirst rows r)).length + 1

def diffHardCap : Nat := 1000

def diffFetchResourceCap : Nat := diffHardCap + 1

/-- What the statement of one side fetches. -/
def diffSql (tenantId : Nat) (ts1 ts2 : Time) (resourceCap : Nat) (rows : List HistoryRow) :
    List HistoryRow :=
  let w := windowed tenantId ts1 ts2 rows
  orderBy HistoryRow.key (w.filter fun r => grpRank w r ≤ resourceCap)

/-! ## The fold -/

structure TopologyDiffEntry where
  changeKind : ChangeKind
  source : Source
  resourceId : Option Nat
  kind : String
  name : Option String
  summary : String
  deriving DecidableEq, Repr

def foldToNetKind (rows : List HistoryRow) : ChangeKind :=
  if rows.getLast?.any (·.changeKind = .removed) then .removed
  else if rows.head?.any (·.changeKind = .created) then .created
  else .updated

def allRowsLastSeenOnly (py : Reader) (rows : List HistoryRow) : Bool :=
  rows.all fun r => r.changeKind = .updated && isLastSeenOnlyChange py (deserialiseSnapshot py r.snapshot)

section Fold
variable (py : Reader)

/-- The key of the resource that a row is of. A row whose id cannot be recovered is a
resource of its own. -/
def resourceKey (row : HistoryRow) : GrpKey :=
  match row.resourceId with
  | some id => .id id
  | none => match recoverResourceId py row with
    | some id => .id id
    | none => .history row.historyId

def GrpKey.resourceId : GrpKey → Option Nat
  | .id n => some n
  | .history _ => none

def groupRowsByResource (rows : List HistoryRow) : List (GrpKey × List HistoryRow) :=
  groupBy (resourceKey py) rows

/-- One resource's rows, with the table that they come from. -/
structure DiffGroup where
  source : Source
  key : GrpKey
  rows : List HistoryRow

def buildDiffEntry (changedOnly : Bool) (g : DiffGroup) : Option TopologyDiffEntry :=
  let netKind := foldToNetKind g.rows
  if changedOnly && netKind = .updated && allRowsLastSeenOnly py g.rows then none
  else
    let kind := (pickField py "kind" g.rows netKind).getD "unknown"
    let name := if g.source = .node then pickField py "name" g.rows netKind else none
    let summary := netKind.value ++ " " ++ g.source.value ++ " " ++ kind
    some
      { changeKind := netKind, source := g.source, resourceId := g.key.resourceId, kind, name
        summary := match name with
          | some name => summary ++ " " ++ name
          | none => summary }

/-- The groups of both sides, nodes first. -/
def diffGroups (nodeRows edgeRows : List HistoryRow) : List DiffGroup :=
  (groupRowsByResource py nodeRows).map (fun g => ⟨.node, g.1, g.2⟩) ++
    (groupRowsByResource py edgeRows).map (fun g => ⟨.edge, g.1, g.2⟩)

/-- The two nested loops of `_fold_diff_entries`, which one `break` leaves both. -/
def foldLoop (changedOnly : Bool) (kindFilter : Option String) :
    List TopologyDiffEntry → List DiffGroup → List TopologyDiffEntry × Bool
  | entries, [] => (entries, false)
  | entries, g :: groups =>
    match buildDiffEntry py changedOnly g with
    | none => foldLoop changedOnly kindFilter entries groups
    | some entry =>
      if kindFilter.any (entry.kind ≠ ·) then foldLoop changedOnly kindFilter entries groups
      else if diffHardCap ≤ entries.length then (entries, true)
      else foldLoop changedOnly kindFilter (entries ++ [entry]) groups

def foldDiffEntries (nodeRows edgeRows : List HistoryRow) (changedOnly : Bool)
    (kindFilter : Option String) : List TopologyDiffEntry × Bool :=
  foldLoop py changedOnly kindFilter [] (diffGroups py nodeRows edgeRows)

def diffTruncationHint : String :=
  "diff output truncated at the 1000-row hard cap; narrow the time window (ts1..ts2) or filter by --kind to reduce churn."

structure TopologyDiffResult where
  entries : List TopologyDiffEntry
  truncated : Bool
  truncationHint : Option String
  deriving DecidableEq, Repr

inductive DiffError where
  | emptyWindow (ts1 ts2 : Time)
  deriving DecidableEq, Repr

def queryDiff (h : Histories) (tenantId : Nat) (ts1 ts2 : Time) (changedOnly : Bool)
    (kindFilter : Option String) : Except DiffError TopologyDiffResult :=
  if ¬ts1 < ts2 then .error (.emptyWindow ts1 ts2)
  else
    let (entries, truncated) := foldDiffEntries py
      (diffSql tenantId ts1 ts2 diffFetchResourceCap h.node)
      (diffSql tenantId ts1 ts2 diffFetchResourceCap h.edge) changedOnly kindFilter
    .ok ⟨entries, truncated, if truncated then some diffTruncationHint else none⟩

end Fold

end Meho.Topology
