import Meho.Graph.Annotate

/- What operators state about nodes (topology/nodes.py, topology/node_delete.py).

`create_or_get_node` inserts a curated node, or makes the tenant's one readable row of the
kind and name curated and merges what the operator says into its properties.
`delete_node` deletes a curated node that no target owns and no live edge joins; edges that
are no longer live go with it, without a tombstone.

Correspondence: the foreign keys of db/models.py `GraphEdge` with `ON DELETE
CASCADE` ↔ `cascadedEdges`; what is not listed keeps its name. -/
namespace Meho.Graph
open Meho.Lib Meho.Lib.Assoc Meho.Lib.Journal

variable {V : Type}

/-! ## Seeding -/

/-- One call of `create_or_get_node`, with the clock and the id that an inserted node will
get. -/
structure Seed where
  kind : String
  name : String
  note : Option String
  evidenceUrl : Option String
  now : Time
  newId : Nat
  deriving DecidableEq

/-- The row that the seed merges into. -/
def findSeedTarget (str : Nat → String) (g : State V) (tenantId : Nat) (kind name : String) :
    Except TopologyError (Option (NodeRow V)) :=
  let rows := g.nodes.rows.filter fun n =>
    n.tenantId = tenantId && n.kind = kind && n.name = name && n.notLegacyScope
  if 1 < rows.length then .error (.ambiguousNode name [kind] (some (scopesOf str rows)))
  else .ok rows.head?

def seedProperties (operator : Operator) (s : Seed) : List (String × Value V) :=
  [("note", textOrNull s.note), ("evidence_url", textOrNull s.evidenceUrl),
    ("seeded_by", .text operator.sub), ("seeded_at", .isoformat s.now)]

def insertSeed (operator : Operator) (isScoped : Bool) (s : Seed) : NodeRow V where
  id := s.newId
  tenantId := operator.tenantId
  kind := s.kind
  name := s.name
  targetId := none
  source := .curated
  properties := insertAll ∅ (seedProperties operator s)
  discoveredBy := operator.sub
  firstSeen := s.now
  lastSeen := some s.now
  sourceScope := if isScoped then some .global else none
  sourceScopeProvenance := if isScoped then some "curated" else none

/-- The operator takes the node over. -/
def mergeSeed (operator : Operator) (s : Seed) (existing : NodeRow V) : NodeRow V :=
  let merged := insertAll existing.properties (seedProperties operator s)
  if existing.source ≠ .curated then
    { existing with
      properties := merged
      lastSeen := some s.now
      source := .curated
      discoveredBy := operator.sub }
  else { existing with properties := merged, lastSeen := some s.now }

/-- The snapshot without what every seed changes. -/
def stripSeedHeartbeats (s : NodeSnapshot V) : NodeSnapshot V :=
  { s with lastSeen := none, properties := s.properties.erase "seeded_at" }

def createNodeIsMeaningful [DecidableEq V] (before after : NodeSnapshot V) : Bool :=
  stripSeedHeartbeats before ≠ stripSeedHeartbeats after

def seedWrite [DecidableEq V] (operator : Operator) (isScoped : Bool) (s : Seed)
    (existing : Option (NodeRow V)) : Write (NodeRow V) :=
  match existing with
  | none => .insert (insertSeed operator isScoped s)
  | some old =>
    let new := mergeSeed operator s old
    if createNodeIsMeaningful (nodeSnapshot old) (nodeSnapshot new) then .update old new
    else .sight old new

def createOrGetNode [DecidableEq V] (str : Nat → String) (operator : Operator) (g : State V)
    (s : Seed) : Except TopologyError (State V) := do
  let _ ← validateKind s.kind
  let existing ← findSeedTarget str g operator.tenantId s.kind s.name
  committed (g.transact g.isScoped s.now [seedWrite operator g.isScoped s existing] [])

/-! ## Deleting -/

def EdgeRow.joins (e : EdgeRow V) (nodeId : Nat) : Bool :=
  e.fromNodeId = nodeId || e.toNodeId = nodeId

def liveEdgeIds (g : State V) (tenantId nodeId : Nat) : List Nat :=
  orderBy (fun i : Nat => i) ((g.edges.rows.filter fun e =>
    e.tenantId = tenantId && e.lastSeen.isSome && e.joins nodeId).map EdgeRow.id)

/-- The edges that go with the node. -/
def cascadedEdges (g : State V) (nodeId : Nat) : List (EdgeRow V) :=
  g.edges.rows.filter fun e => e.joins nodeId

def deleteNode (operator : Operator) (g : State V) (nodeId : Nat) (now : Time) :
    Except TopologyError (State V) :=
  match g.nodes.rows.find? fun n => n.id = nodeId && n.tenantId = operator.tenantId with
  | none => .error (.nodeNotFoundForDelete nodeId)
  | some node =>
    if node.source ≠ .curated ∨ node.targetId.isSome then
      .error (.nodeNotDeletable nodeId node.source node.targetId)
    else
      match liveEdgeIds g operator.tenantId nodeId with
      | edgeId :: edgeIds => .error (.nodeHasLiveEdges nodeId (edgeId :: edgeIds))
      | [] => committed <|
        g.transact g.isScoped now [.remove node] ((cascadedEdges g nodeId).map .cascade)

end Meho.Graph
