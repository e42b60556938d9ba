import Meho.Topology.TimelineCursor

/- The timeline of graph changes (topology/query.py).

Each history table is read by a statement of its own, newest row first, a row more than
the page holds. The two sides are merged and cut, and the cursor of the next page is the
last row of this one. At one timestamp and id a node row goes before an edge row.

Correspondence: `_TIMELINE_NODE_SQL` and `_TIMELINE_EDGE_SQL` ↔ `timelineSql`; what is
not listed keeps its name. Python's reading of a stored snapshot is a parameter, as for
the diff. -/
namespace Meho.Topology
open Meho.Lib

/-! ## The tables -/

/-- One row of a history table. -/
structure TimelineRow where
  historyId : Nat
  tenantId : Nat
  resourceId : Option Nat
  changeKind : ChangeKind
  snapshot : Json
  auditId : Option Nat
  validFrom : DateTime

/-- A row of `graph_node`, as the target filter reads it. -/
structure LiveNode where
  id : Nat
  tenantId : Nat
  targetId : Option Nat

/-- A row of `graph_edge`. -/
structure LiveEdge where
  id : Nat
  tenantId : Nat
  fromNodeId : Nat
  toNodeId : Nat

/-- The history tables and the live graph. `history_id` is the primary key of each table. -/
structure TimelineStore where
  nodeHistory : List TimelineRow
  edgeHistory : List TimelineRow
  nodes : List LiveNode
  edges : List LiveEdge
  node_ids : (nodeHistory.map TimelineRow.historyId).Nodup
  edge_ids : (edgeHistory.map TimelineRow.historyId).Nodup

def TimelineStore.side (s : TimelineStore) : Source → List TimelineRow
  | .node => s.nodeHistory
  | .edge => s.edgeHistory

theorem TimelineStore.side_ids (s : TimelineStore) (source : Source) :
    ((s.side source).map TimelineRow.historyId).Nodup := by
  cases source
  · exact s.node_ids
  · exact s.edge_ids

/-! ## The statements -/

/-- What the caller filters by. -/
structure TimelineFilter where
  tenantId : Nat
  targetId : Option Nat
  since : Option DateTime
  until_ : Option DateTime

/-- The nodes of a target. -/
def TimelineStore.isTargetNode (s : TimelineStore) (target id : Nat) : Bool :=
  s.nodes.any fun n => n.id = id && n.targetId = some target

/-- The row's resource is a live one of the target. An edge is one when an end of it is. -/
def TimelineStore.ofTarget (s : TimelineStore) (tenantId target : Nat) : Source → TimelineRow → Bool
  | .node, r => s.nodes.any fun n =>
      n.tenantId = tenantId && n.targetId = some target && r.resourceId = some n.id
  | .edge, r => s.edges.any fun e =>
      e.tenantId = tenantId && r.resourceId = some e.id &&
        s.nodes.any (·.id = e.fromNodeId) && s.nodes.any (·.id = e.toNodeId) &&
        (s.isTargetNode target e.fromNodeId || s.isTargetNode target e.toNodeId)

/-- The conditions of a statement but the cursor's. -/
def matching (s : TimelineStore) (f : TimelineFilter) (source : Source) (r : TimelineRow) : Bool :=
  r.tenantId = f.tenantId && f.since.all (·.instant ≤ r.validFrom.instant) &&
    f.until_.all (r.validFrom.instant ≤ ·.instant) &&
    f.targetId.all fun target => s.ofTarget f.tenantId target source r

/-- The cursor's condition: at its timestamp and id only an edge row passes, and only behind
a node row. -/
def pastCursor (source : Source) (p : TimelineCursorPosition) (r : TimelineRow) : Bool :=
  r.validFrom.instant < p.ts.instant ||
    (r.validFrom.instant = p.ts.instant &&
      ((r.historyId : Int) < p.historyId ||
        (source = .edge && (r.historyId : Int) = p.historyId && p.source = .node)))

/-- `ORDER BY valid_from DESC, history_id DESC`. -/
def TimelineRow.key (r : TimelineRow) : (Int ×ₗ Nat)ᵒᵈ :=
  OrderDual.toDual (toLex (r.validFrom.instant, r.historyId))

def timelineSql (s : TimelineStore) (f : TimelineFilter) (cursor : Option TimelineCursorPosition)
    (limit : Nat) (source : Source) : List TimelineRow :=
  let rows := (s.side source).filter fun r =>
    matching s f source r && cursor.all (pastCursor source · r)
  (orderBy TimelineRow.key rows).take limit

/-! ## Entries -/

structure TopologyTimelineEntry where
  validFrom : DateTime
  historyId : Nat
  source : Source
  changeKind : ChangeKind
  resourceId : Option Nat
  summary : String
  auditId : Option Nat
  deriving DecidableEq

section Entries
variable (py : Reader)

/-- The state that a summary shows: the one before a removal, else the one after. -/
def summarySide (changeKind : ChangeKind) (snapshot : Option Dict) : Option Dict :=
  snapshotSide snapshot (if changeKind = .removed then "before" else "after")

/-- `side.get(field) or default`, as text. -/
def fieldOr (side : Dict) (field default : String) : String :=
  match dictGet side field with
  | some value => if value.truthy then py.str value else default
  | none => default

def formatNodeSummary (changeKind : ChangeKind) (snapshot : Option Dict) : String :=
  match summarySide changeKind snapshot with
  | some side => changeKind.value ++ " " ++ fieldOr py side "kind" "node" ++ " " ++
      fieldOr py side "name" "<unknown>"
  | none => changeKind.value ++ " node"

def formatEdgeSummary (changeKind : ChangeKind) (snapshot : Option Dict) : String :=
  match summarySide changeKind snapshot with
  | some side => changeKind.value ++ " " ++ fieldOr py side "kind" "edge"
  | none => changeKind.value ++ " edge"

def rowToTimelineEntry (source : Source) (r : TimelineRow) : TopologyTimelineEntry :=
  let snapshot := deserialiseSnapshot py r.snapshot
  { validFrom := r.validFrom, historyId := r.historyId, source, changeKind := r.changeKind
    resourceId := r.resourceId, auditId := r.auditId
    summary := match source with
      | .node => formatNodeSummary py r.changeKind snapshot
      | .edge => formatEdgeSummary py r.changeKind snapshot }

end Entries

/-- `(valid_from, history_id)`, the pair that the merge compares. -/
def TopologyTimelineEntry.pair (e : TopologyTimelineEntry) : Int ×ₗ Nat :=
  toLex (e.validFrom.instant, e.historyId)

/-- The newer head first, and of equal heads the node row. -/
def mergeTimelinePages :
    List TopologyTimelineEntry → List TopologyTimelineEntry → Nat → List TopologyTimelineEntry
  | _, _, 0 => []
  | [], [], _ + 1 => []
  | [], e :: edgeRows, limit + 1 => e :: mergeTimelinePages [] edgeRows limit
  | n :: nodeRows, [], limit + 1 => n :: mergeTimelinePages nodeRows [] limit
  | n :: nodeRows, e :: edgeRows, limit + 1 =>
    if n.pair > e.pair then n :: mergeTimelinePages nodeRows (e :: edgeRows) limit
    else if n.pair < e.pair then e :: mergeTimelinePages (n :: nodeRows) edgeRows limit
    else n :: mergeTimelinePages nodeRows (e :: edgeRows) limit

def mergeHasLeftovers (nodeRows edgeRows merged : List TopologyTimelineEntry) : Bool :=
  let consumedNodes := (merged.filter (·.source = .node)).length
  let consumedEdges := merged.length - consumedNodes
  consumedNodes < nodeRows.length || consumedEdges < edgeRows.length

def TopologyTimelineEntry.position (e : TopologyTimelineEntry) : TimelineCursorPosition :=
  ⟨e.validFrom, e.historyId, e.source⟩

def computeNextCursor (nodeRows edgeRows merged : List TopologyTimelineEntry) (limit : Nat) :
    Option String :=
  match merged.getLast? with
  | none => none
  | some last =>
    if merged.length < limit then none
    else if limit < nodeRows.length || limit < edgeRows.length ||
        mergeHasLeftovers nodeRows edgeRows merged then
      some (encodeTimelineCursor last.position)
    else none

def maxTimelineLimit : Nat := 1000

inductive TimelineError where
  | limit (got : Int)
  | cursor (reason : InvalidTimelineCursor)
  deriving DecidableEq, Repr

def TimelineError.message : TimelineError → String
  | .limit got => s!"limit must be in 1..{maxTimelineLimit}; got {got}"
  | .cursor reason => reason.message

structure TopologyTimelineResult where
  rows : List TopologyTimelineEntry
  nextCursor : Option String
  deriving Inhabited

/-- The position that a request starts from. -/
def cursorPosition : Option String → Except TimelineError (Option TimelineCursorPosition)
  | none => .ok none
  | some token =>
    match decodeTimelineCursor token with
    | .ok p => .ok (some p)
    | .error reason => .error (.cursor reason)

/-- The fetched rows of one table as entries. -/
def timelineSide (py : Reader) (s : TimelineStore) (f : TimelineFilter)
    (position : Option TimelineCursorPosition) (perSideFetch : Nat) (source : Source) :
    List TopologyTimelineEntry :=
  (timelineSql s f position perSideFetch source).map (rowToTimelineEntry py source)

def queryTimeline (py : Reader) (s : TimelineStore) (f : TimelineFilter) (limit : Int)
    (cursor : Option String) : Except TimelineError TopologyTimelineResult :=
  if limit < 1 ∨ maxTimelineLimit < limit then .error (.limit limit)
  else
    match cursorPosition cursor with
    | .error e => .error e
    | .ok position =>
      let side := timelineSide py s f position (limit.toNat + 1)
      let merged := mergeTimelinePages (side .node) (side .edge) limit.toNat
      .ok ⟨merged, computeNextCursor (side .node) (side .edge) merged limit.toNat⟩

end Meho.Topology
