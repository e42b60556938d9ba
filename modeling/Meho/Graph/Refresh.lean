import Meho.Graph.Rows
import Meho.Lib.Assoc

/- The refresh of a target (topology/refresh.py).

One transaction reconciles what the target reported with the rows of its tenant. A
reported node is inserted, or its row is taken over by the target; an operator's row is
only seen again. Rows of the target that it no longer reports are retired. Then the same
for edges, between the nodes that the first pass loaded or inserted.

Correspondence: each function keeps its name. A helper that changes a row and
records the change is the write of both. The ids of new rows are a supply by
key. The counts, the audit row and the connector's call are left out. -/
namespace Meho.Graph
open Meho.Lib.Assoc Meho.Lib.Journal

variable {V : Type}

/-! ## Keys and markers -/

/-- `(kind, name)`. -/
abbrev NameKey := String × String

/-- The keys of both ends, and the kind. -/
abbrev NameEdgeKey := NameKey × NameKey × String

def NodeRow.nodeKey (n : NodeRow V) : NameKey := (n.kind, n.name)

def NodeHint.nodeKey (h : NodeHint V) : NameKey := (h.kind, h.name)

def EdgeHint.fromKey (h : EdgeHint V) : NameKey := (h.fromKind, h.fromName)

def EdgeHint.toKey (h : EdgeHint V) : NameKey := (h.toKind, h.toName)

def EdgeHint.edgeKey (h : EdgeHint V) : NameEdgeKey := (h.fromKey, h.toKey, h.kind)

def supersededBy : String := "superseded_by"

def conflictsWith : String := "conflicts_with"

def reservedMarkerKeys : List String := [supersededBy, conflictsWith]

def stripReservedMarkers (properties : Properties V) : Properties V :=
  reservedMarkerKeys.foldl (fun kept key => kept.erase key) properties

/-- `if key in current_dict: merged[key] = current_dict[key]`. -/
def keepMarker (current merged : Properties V) (key : String) : Properties V :=
  match current.lookup key with
  | some value => merged.insert key value
  | none => merged

/-- What the probe says, with the markers that the row has. -/
def mergeEdgeProperties (current incoming : Properties V) : Properties V :=
  reservedMarkerKeys.foldl (keepMarker current) (stripReservedMarkers incoming)

/-! ## Nodes -/

/-- One refresh: who reported what when, and the ids that new rows will get. -/
structure Reconcile (V : Type) where
  tenantId : Nat
  targetId : Nat
  discoveredBy : String
  hints : TopologyHints V
  now : Time
  newNodeId : NameKey → Nat
  newEdgeId : NameEdgeKey → Nat

/-- This target's refresh decides whether the row is retired. -/
def ownedByTarget (isScoped : Bool) (targetId : Nat) (row : NodeRow V) : Bool :=
  if !isScoped then row.targetId = some targetId
  else row.sourceScope = some (.target targetId) ||
    (row.sourceScope = some .global && row.targetId = some targetId)

section Nodes
variable (r : Reconcile V)

def loadScopedCandidateNodes (g : State V) : List (NodeRow V) :=
  let triples := r.hints.nodes.map fun h =>
    (some (scopeForDiscoveredNode r.targetId h.kind), h.kind, h.name)
  g.nodes.rows.filter fun n => n.tenantId = r.tenantId ∧
    ((n.sourceScope, n.kind, n.name) ∈ triples ∨ n.sourceScope = some (.target r.targetId) ∨
      n.sourceScope = some .global ∧ n.targetId = some r.targetId ∧ n.kind = "target")

def loadReconcileCandidateNodes (g : State V) : List (NodeRow V) :=
  if g.isScoped then loadScopedCandidateNodes r g
  else
    let discoveredPairs := r.hints.nodes.map NodeHint.nodeKey
    g.nodes.rows.filter fun n => n.tenantId = r.tenantId ∧
      (n.nodeKey ∈ discoveredPairs ∨ n.targetId = some r.targetId)

def insertDiscoveredNode (isScoped : Bool) (hint : NodeHint V) : NodeRow V where
  id := r.newNodeId hint.nodeKey
  tenantId := r.tenantId
  kind := hint.kind
  name := hint.name
  targetId := some r.targetId
  source := .auto
  properties := hint.properties
  discoveredBy := r.discoveredBy
  firstSeen := r.now
  lastSeen := some r.now
  sourceScope := if isScoped then some (scopeForDiscoveredNode r.targetId hint.kind) else none
  sourceScopeProvenance := if isScoped then some "refresh" else none

/-- The target takes the row over. -/
def updateExistingNode [DecidableEq V] (row : NodeRow V) (hint : NodeHint V) : Write (NodeRow V) :=
  let new := { row with
    properties := hint.properties, targetId := some r.targetId, lastSeen := some r.now }
  if row.lastSeen.isNone ∨ row.targetId ≠ some r.targetId ∨ row.properties ≠ hint.properties
  then .update row new
  else .sight row new

/-- An operator's row is only seen; coming back is a change. -/
def refreshCuratedNode (row : NodeRow V) : Write (NodeRow V) :=
  let new := { row with lastSeen := some r.now }
  if row.lastSeen.isNone then .update row new else .sight row new

def softRemoveNode (row : NodeRow V) : Write (NodeRow V) :=
  .retire row { row with lastSeen := none }

def reconcileNode [DecidableEq V] (isScoped : Bool) (existingByKey : List (NameKey × NodeRow V))
    (key : NameKey) (hint : NodeHint V) : Write (NodeRow V) :=
  match get existingByKey key with
  | none => .insert (insertDiscoveredNode r isScoped hint)
  | some row =>
    if row.source = .curated then refreshCuratedNode r row else updateExistingNode r row hint

/-- One round of the soft-delete loop. -/
def softDeleteMissingNode (isScoped : Bool) (discovered : List NameKey) (key : NameKey)
    (row : NodeRow V) : Option (Write (NodeRow V)) :=
  if key ∈ discovered then none
  else if row.source = .curated then none
  else if !ownedByTarget isScoped r.targetId row then none
  else if row.lastSeen.isNone then none
  else some (softRemoveNode row)

def softDeleteMissingNodes (isScoped : Bool) (existingByKey : List (NameKey × NodeRow V))
    (discovered : List NameKey) : List (Write (NodeRow V)) :=
  existingByKey.filterMap fun e => softDeleteMissingNode r isScoped discovered e.1 e.2

/-- What the node pass does, and which ids the edge pass may use: of the nodes in the
snapshot, and of all that were loaded. -/
structure NodePass (V : Type) where
  writes : List (Write (NodeRow V))
  liveKeyToId : List (NameKey × Nat)
  allKeyToId : List (NameKey × Nat)

def nodesByKey (g : State V) : List (NameKey × NodeRow V) :=
  ofPairs ((loadReconcileCandidateNodes r g).map fun n => (n.nodeKey, n))

def discoveredNodes : List (NameKey × NodeHint V) :=
  ofPairs (r.hints.nodes.map fun h => (h.nodeKey, h))

def reconcileNodes [DecidableEq V] (g : State V) : NodePass V :=
  let existingByKey := nodesByKey r g
  let discoveredByKey := discoveredNodes r
  let idOf (key : NameKey) : Nat :=
    match get existingByKey key with
    | some row => row.id
    | none => r.newNodeId key
  { writes := discoveredByKey.map (fun e => reconcileNode r g.isScoped existingByKey e.1 e.2) ++
      softDeleteMissingNodes r g.isScoped existingByKey (discoveredByKey.map Prod.fst)
    liveKeyToId := discoveredByKey.map fun e => (e.1, idOf e.1)
    allKeyToId := existingByKey.map (fun e => (e.1, e.2.id)) ++
      (discoveredByKey.filter fun e => (get existingByKey e.1).isNone).map fun e =>
        (e.1, r.newNodeId e.1) }

end Nodes

/-! ## Edges -/

section Edges
variable (r : Reconcile V)

/-- The edges between loaded nodes. -/
def loadExistingEdgesByKey (g : State V) (allKeyToId : List (NameKey × Nat)) :
    List (NameEdgeKey × EdgeRow V) :=
  let idToKey := ofPairs (allKeyToId.map fun e => (e.2, e.1))
  let rows := g.edges.rows.filter fun e =>
    e.tenantId = r.tenantId ∧ e.fromNodeId ∈ allKeyToId.map Prod.snd
  ofPairs <| rows.filterMap fun row =>
    match get idToKey row.fromNodeId, get idToKey row.toNodeId with
    | some fromKey, some toKey => some ((fromKey, toKey, row.kind), row)
    | _, _ => none

/-- The reported edges whose ends are in the snapshot. -/
def indexDiscoveredEdges (liveKeyToId : List (NameKey × Nat)) : List (NameEdgeKey × EdgeHint V) :=
  ofPairs <| (r.hints.edges.filter fun h =>
    (get liveKeyToId h.fromKey).isSome && (get liveKeyToId h.toKey).isSome).map fun h =>
      (h.edgeKey, h)

def insertDiscoveredEdge (hint : EdgeHint V) (fromId toId : Nat) : EdgeRow V where
  id := r.newEdgeId hint.edgeKey
  tenantId := r.tenantId
  fromNodeId := fromId
  toNodeId := toId
  kind := hint.kind
  source := .auto
  properties := stripReservedMarkers hint.properties
  discoveredBy := r.discoveredBy
  firstSeen := r.now
  lastSeen := some r.now

def refreshCuratedEdge (row : EdgeRow V) : Write (EdgeRow V) :=
  let new := { row with lastSeen := some r.now }
  if row.lastSeen.isNone then .update row new else .sight row new

def updateExistingAutoEdge [DecidableEq V] (row : EdgeRow V) (hint : EdgeHint V) :
    Write (EdgeRow V) :=
  let mergedProperties := mergeEdgeProperties row.properties hint.properties
  let new := { row with properties := mergedProperties, lastSeen := some r.now }
  if row.lastSeen.isNone ∨ row.properties ≠ mergedProperties then .update row new
  else .sight row new

def softRemoveEdge (row : EdgeRow V) : Write (EdgeRow V) :=
  .retire row { row with lastSeen := none }

/-- The ends of an indexed edge are in the map, so it is never skipped here. -/
def reconcileEdge [DecidableEq V] (liveKeyToId : List (NameKey × Nat))
    (existingByKey : List (NameEdgeKey × EdgeRow V)) (key : NameEdgeKey) (hint : EdgeHint V) :
    Option (Write (EdgeRow V)) := do
  let fromId ← get liveKeyToId hint.fromKey
  let toId ← get liveKeyToId hint.toKey
  match get existingByKey key with
  | none => some (.insert (insertDiscoveredEdge r hint fromId toId))
  | some row =>
    if row.source = .curated then some (refreshCuratedEdge r row)
    else some (updateExistingAutoEdge r row hint)

/-- One round of the soft-delete loop. -/
def softDeleteMissingEdge (discovered : List NameEdgeKey) (key : NameEdgeKey) (row : EdgeRow V) :
    Option (Write (EdgeRow V)) :=
  if key ∈ discovered then none
  else if row.lastSeen.isNone then none
  else some (softRemoveEdge row)

def reconcileEdges [DecidableEq V] (g : State V) (liveKeyToId allKeyToId : List (NameKey × Nat)) :
    List (Write (EdgeRow V)) :=
  let existingByKey := loadExistingEdgesByKey r g allKeyToId
  let discoveredByKey := indexDiscoveredEdges r liveKeyToId
  discoveredByKey.filterMap (fun e => reconcileEdge r liveKeyToId existingByKey e.1 e.2) ++
    existingByKey.filterMap fun e =>
      softDeleteMissingEdge (discoveredByKey.map Prod.fst) e.1 e.2

end Edges

/-- The reconcile transaction; `none` when it is rolled back. -/
def applyReconcile [DecidableEq V] (g : State V) (r : Reconcile V) : Option (State V) :=
  let pass := reconcileNodes r g
  g.transact g.isScoped r.now pass.writes (reconcileEdges r g pass.liveKeyToId pass.allKeyToId)

end Meho.Graph
