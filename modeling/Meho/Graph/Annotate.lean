import Mathlib.Data.String.Basic
import Meho.Graph.Refresh
import Meho.Lib.Query

/- What operators state about edges (topology/annotate.py, topology/bulk_import.py).

`annotate_edge` states an edge between two nodes that it finds by name: it inserts a curated
edge, or makes the existing one curated. A probe's edges of the same kind from the same
node to other nodes are then marked as superseded, and edges of other kinds between the
same nodes as in conflict, on both sides. `unannotate_edge` deletes a curated edge and
clears the marks that name it. A bulk import is a list of annotations in one transaction.

Correspondence: `_upsert_curated_edge` ↔ `existingEdge`, `upsertCuratedEdge`;
what is not listed keeps its name (topology/resolvers.py has
`pick_unique_node` and `resolve_node`). The loops only read what the
transaction found, so each row is written once. Of the audit payload only the
ids are kept, and of a dry run nothing; `str` prints an id. -/
namespace Meho.Graph
open Meho.Lib Meho.Lib.Assoc Meho.Lib.Journal

variable {V : Type}

/-! ## Names of nodes -/

/-- Why an operator's write is refused. -/
inductive TopologyError where
  | invalidKind (kind : String)
  | nodeNotFound (name : String) (kind : Option String)
  | ambiguousNode (name : String) (kinds : List String) (scopes : Option (List String))
  | unannotateSelector (message : String)
  | edgeNotFound (edgeId : Nat)
  | endpointsMissing (edgeId : Nat)
  | noEdge (kind fromName toName : String)
  | autoEdgeDeletion (edgeId : Nat)
  | nodeNotFoundForDelete (nodeId : Nat)
  | nodeNotDeletable (nodeId : Nat) (source : Source) (targetId : Option Nat)
  | nodeHasLiveEdges (nodeId : Nat) (edgeIds : List Nat)
  | bulkImportValidation (errors : List (Nat × TopologyError))
  /-- A constraint of the database failed. -/
  | integrity

def isSlugSeparator (c : Char) : Bool := c = '.' || c = '_' || c = '-'

def isSlugChar (c : Char) : Bool := ('a' ≤ c && c ≤ 'z') || ('0' ≤ c && c ≤ '9')

/-- 2 to 63 characters, in words of letters and digits with single separators between. -/
def isValidKindSlug (kind : String) : Bool :=
  2 ≤ kind.length && kind.length ≤ 63 &&
    (kind.toList.splitOnP isSlugSeparator).all fun word => !word.isEmpty && word.all isSlugChar

def validateKind (kind : String) : Except TopologyError String :=
  if isValidKindSlug kind then .ok kind else .error (.invalidKind kind)

structure NodeRef where
  name : String
  kind : Option String
  deriving DecidableEq

def sortedTexts (xs : List String) : List String := orderBy (fun x : String => x) xs

/-- `row.source_scope or "unresolved"` of the rows, sorted. -/
def scopesOf (str : Nat → String) (rows : List (NodeRow V)) : List String :=
  sortedTexts (rows.map fun n => (n.sourceScope.map (Scope.text str)).getD "unresolved")

/-- Rows that the scope cut-over did not set aside. -/
def NodeRow.notLegacyScope (n : NodeRow V) : Bool := !n.sourceScope.any Scope.isLegacy

def pickUniqueNode (str : Nat → String) (rows : List (NodeRow V)) (name : String)
    (kind : Option String) : Except TopologyError (NodeRow V) :=
  let kinds := sortedTexts (rows.map NodeRow.kind).dedup
  match rows with
  | [] => .error (.nodeNotFound name kind)
  | [row] => .ok row
  | _ =>
    if 1 < kinds.length then .error (.ambiguousNode name kinds none)
    else .error (.ambiguousNode name kinds (some (scopesOf str rows)))

def resolveNode (str : Nat → String) (g : State V) (tenantId : Nat) (ref : NodeRef) :
    Except TopologyError (NodeRow V) :=
  let rows := g.nodes.rows.filter fun n =>
    n.tenantId = tenantId && n.name = ref.name && n.notLegacyScope && ref.kind.all (n.kind = ·)
  pickUniqueNode str rows ref.name ref.kind

/-! ## Markers -/

/-- The ids that `conflicts_with` lists. -/
def conflictList (properties : Properties V) : List Nat :=
  match properties.lookup conflictsWith with
  | some (.uuids ids) => ids
  | _ => []

def supersedes [DecidableEq V] (id : Nat) (properties : Properties V) : Bool :=
  properties.lookup supersededBy = some (.uuid id)

def markSuperseded (row : EdgeRow V) (id : Nat) : EdgeRow V :=
  { row with properties := row.properties.insert supersededBy (.uuid id) }

def appendConflictMarker (row : EdgeRow V) (id : Nat) : EdgeRow V :=
  let current := conflictList row.properties
  let current := if id ∈ current then current else current ++ [id]
  { row with properties := row.properties.insert conflictsWith (.uuids current) }

/-- The marks of one edge without those that name `removedId`. -/
def clearReciprocalMarkers [DecidableEq V] (row : EdgeRow V) (removedId : Nat) : EdgeRow V :=
  let props := row.properties
  let props := if supersedes removedId props then props.erase supersededBy else props
  let conflicts := conflictList props
  let props :=
    if removedId ∈ conflicts then
      let rest := conflicts.filter (· ≠ removedId)
      if rest.isEmpty then props.erase conflictsWith else props.insert conflictsWith (.uuids rest)
    else props
  { row with properties := props }

section Annotate
variable (g : State V) (tenantId : Nat)

def findExistingEdge (fromId toId : Nat) (kind : String) : Option (EdgeRow V) :=
  g.edges.rows.find? fun e =>
    e.tenantId = tenantId && e.fromNodeId = fromId && e.toNodeId = toId && e.kind = kind

/-- A probe's edges of the kind from the node to other nodes, unless marked already. -/
def supersededEdges [DecidableEq V] (curatedEdgeId fromId toId : Nat) (kind : String) :
    List (EdgeRow V) :=
  (g.edges.rows.filter fun e => e.tenantId = tenantId && e.fromNodeId = fromId && e.kind = kind &&
    e.source = .auto && e.toNodeId ≠ toId).filter fun e => !supersedes curatedEdgeId e.properties

/-- The edges of other kinds between the nodes, unless both sides are marked already. -/
def conflictingEdges (curatedEdge : EdgeRow V) (fromId toId : Nat) (kind : String) :
    List (EdgeRow V) :=
  (g.edges.rows.filter fun e => e.tenantId = tenantId && e.fromNodeId = fromId &&
    e.toNodeId = toId && e.kind ≠ kind).filter fun e =>
      !(decide (curatedEdge.id ∈ conflictList e.properties) &&
        decide (e.id ∈ conflictList curatedEdge.properties))

end Annotate

/-! ## Annotate -/

/-- A row of a bulk import, or one call of `annotate_edge`, with the clock and the id that an
inserted edge will get. -/
structure Annotation where
  fromRef : NodeRef
  kind : String
  toRef : NodeRef
  note : Option String
  evidenceUrl : Option String
  now : Time
  newId : Nat
  deriving DecidableEq

def textOrNull : Option String → Value V
  | some s => .text s
  | none => .null

/-- `note`, `evidence_url` and who stated them when. -/
def annotationProperties (operator : Operator) (a : Annotation) : List (String × Value V) :=
  [("note", textOrNull a.note), ("evidence_url", textOrNull a.evidenceUrl),
    ("annotated_by", .text operator.sub), ("annotated_at", .isoformat a.now)]

/-- `for key, value in properties.items(): merged[key] = value`. -/
def insertAll (properties : Properties V) (entries : List (String × Value V)) : Properties V :=
  entries.foldl (fun merged e => merged.insert e.1 e.2) properties

def insertCuratedEdge (operator : Operator) (a : Annotation) (fromNode toNode : NodeRow V) :
    EdgeRow V where
  id := a.newId
  tenantId := operator.tenantId
  fromNodeId := fromNode.id
  toNodeId := toNode.id
  kind := a.kind
  source := .curated
  properties := insertAll ∅ (annotationProperties operator a)
  discoveredBy := operator.sub
  firstSeen := a.now
  lastSeen := some a.now

/-- The operator takes the edge over; a curated edge is never superseded. -/
def mergeOntoExistingEdge (operator : Operator) (a : Annotation) (existing : EdgeRow V) :
    EdgeRow V :=
  let merged := insertAll existing.properties (annotationProperties operator a)
  if existing.source ≠ .curated then
    { existing with
      properties := merged.erase supersededBy
      lastSeen := some a.now
      source := .curated
      discoveredBy := operator.sub }
  else { existing with properties := merged, lastSeen := some a.now }

/-- The snapshot without what every annotation changes. -/
def stripAnnotateHeartbeats (s : EdgeSnapshot V) : EdgeSnapshot V :=
  { s with lastSeen := none, properties := s.properties.erase "annotated_at" }

def annotateCuratedIsMeaningful [DecidableEq V] (before after : EdgeSnapshot V) : Bool :=
  stripAnnotateHeartbeats before ≠ stripAnnotateHeartbeats after

/-- What an annotation writes, planned over one read of the graph. -/
structure AnnotatePlan (V : Type) where
  edge : EdgeRow V
  wasCreated : Bool
  superseded : List Nat
  conflicts : List Nat
  writes : List (Write (EdgeRow V))

/-- The history row of the edge, if there is one to write. -/
def curatedWrite [DecidableEq V] (existing : Option (EdgeRow V)) (edge : EdgeRow V) :
    Write (EdgeRow V) :=
  match existing with
  | none => .insert edge
  | some old =>
    if annotateCuratedIsMeaningful (edgeSnapshot old) (edgeSnapshot edge) then .update old edge
    else .sight old edge

section Plan
variable (operator : Operator) (g : State V) (a : Annotation) (fromNode toNode : NodeRow V)

def existingEdge : Option (EdgeRow V) :=
  findExistingEdge g operator.tenantId fromNode.id toNode.id a.kind

def upsertCuratedEdge : EdgeRow V :=
  match existingEdge operator g a fromNode toNode with
  | none => insertCuratedEdge operator a fromNode toNode
  | some old => mergeOntoExistingEdge operator a old

/-- The edge with its marks, and what is marked for it. -/
def annotatePlan [DecidableEq V] : AnnotatePlan V :=
  let existing := existingEdge operator g a fromNode toNode
  let edge := upsertCuratedEdge operator g a fromNode toNode
  let superseded := supersededEdges g operator.tenantId edge.id fromNode.id toNode.id a.kind
  let conflicting := conflictingEdges g operator.tenantId edge fromNode.id toNode.id a.kind
  let marked := conflicting.foldl (fun e other => appendConflictMarker e other.id) edge
  { edge := marked
    wasCreated := existing.isNone
    superseded := superseded.map EdgeRow.id
    conflicts := conflicting.map EdgeRow.id
    writes := curatedWrite existing marked ::
      (superseded.map (fun e => .update e (markSuperseded e edge.id)) ++
        conflicting.map fun e => .update e (appendConflictMarker e edge.id)) }

end Plan

def annotateEdgeInTxn [DecidableEq V] (str : Nat → String) (operator : Operator) (g : State V)
    (a : Annotation) : Except TopologyError (AnnotatePlan V) := do
  let _ ← validateKind a.kind
  let fromNode ← resolveNode str g operator.tenantId a.fromRef
  let toNode ← resolveNode str g operator.tenantId a.toRef
  return annotatePlan operator g a fromNode toNode

/-- What a transaction leaves, or that a constraint failed. -/
def committed (g : Option (State V)) : Except TopologyError (State V) :=
  match g with
  | some g => .ok g
  | none => .error .integrity

/-- One annotation in its transaction. -/
def annotateEdge [DecidableEq V] (str : Nat → String) (operator : Operator) (g : State V)
    (a : Annotation) : Except TopologyError (State V) := do
  let plan ← annotateEdgeInTxn str operator g a
  committed (g.transact g.isScoped a.now [] plan.writes)

/-! ## Unannotate -/

/-- The arguments of `unannotate_edge`. -/
structure Selector where
  edgeId : Option Nat
  fromRef : Option NodeRef
  kind : Option String
  toRef : Option NodeRef
  deriving DecidableEq

def checkUnannotateSelectors (s : Selector) : Except TopologyError Unit :=
  let hasId := s.edgeId.isSome
  let hasTriple := s.fromRef.isSome || s.kind.isSome || s.toRef.isSome
  if hasId = hasTriple then
    .error (.unannotateSelector ("unannotate_edge requires exactly one selector: edge_id " ++
      "OR the full (from_ref, kind, to_ref) triple"))
  else if hasTriple && !(s.fromRef.isSome && s.kind.isSome && s.toRef.isSome) then
    .error (.unannotateSelector "triple selector requires all three of (from_ref, kind, to_ref)")
  else .ok ()

def resolveUnannotateTarget (str : Nat → String) (operator : Operator) (g : State V)
    (s : Selector) : Except TopologyError (EdgeRow V) :=
  match s.edgeId with
  | some edgeId =>
    match g.edge edgeId with
    | none => .error (.edgeNotFound edgeId)
    | some edge =>
      if edge.tenantId ≠ operator.tenantId then .error (.edgeNotFound edgeId)
      else if (g.node edge.fromNodeId).isNone || (g.node edge.toNodeId).isNone then
        .error (.endpointsMissing edgeId)
      else .ok edge
  | none =>
    match s.fromRef, s.kind, s.toRef with
    | some fromRef, some kind, some toRef => do
      let kind ← validateKind kind
      let fromNode ← resolveNode str g operator.tenantId fromRef
      let toNode ← resolveNode str g operator.tenantId toRef
      match findExistingEdge g operator.tenantId fromNode.id toNode.id kind with
      | some edge => .ok edge
      | none => .error (.noEdge kind fromRef.name toRef.name)
    -- The check of the selectors leaves no partial triple.
    | _, _, _ => .error (.unannotateSelector "")

def findEdgesReferencing [DecidableEq V] (g : State V) (tenantId edgeId : Nat) : List (EdgeRow V) :=
  g.edges.rows.filter fun e => e.tenantId = tenantId &&
    (supersedes edgeId e.properties || decide (edgeId ∈ conflictList e.properties))

/-- The tombstone, and the edges that named the removed one. -/
def unannotateWrites [DecidableEq V] (g : State V) (tenantId : Nat) (edge : EdgeRow V) :
    List (Write (EdgeRow V)) :=
  .remove edge :: (findEdgesReferencing g tenantId edge.id).map fun e =>
    .update e (clearReciprocalMarkers e edge.id)

def unannotateEdge [DecidableEq V] (str : Nat → String) (operator : Operator) (g : State V)
    (s : Selector) (now : Time) : Except TopologyError (State V) := do
  checkUnannotateSelectors s
  let edge ← resolveUnannotateTarget str operator g s
  if edge.source ≠ .curated then throw (.autoEdgeDeletion edge.id)
  committed (g.transact g.isScoped now [] (unannotateWrites g operator.tenantId edge))

/-! ## Bulk import -/

/-- What keeps a row from being imported. -/
def classifyRow (str : Nat → String) (operator : Operator) (g : State V) (a : Annotation) :
    Except TopologyError Unit := do
  let _ ← validateKind a.kind
  let _ ← resolveNode str g operator.tenantId a.fromRef
  let _ ← resolveNode str g operator.tenantId a.toRef
  return ()

/-- The rows that do not pass, with their places. -/
def rowErrors (str : Nat → String) (operator : Operator) (g : State V) (rows : List Annotation) :
    List (Nat × TopologyError) :=
  rows.zipIdx.filterMap fun e =>
    match classifyRow str operator g e.1 with
    | .error err => some (e.2, err)
    | .ok _ => none

/-- Both passes: `seen` is the graph that the validating transaction reads, `g` what the
applying one finds. -/
def bulkImportEdges [DecidableEq V] (str : Nat → String) (operator : Operator) (seen g : State V)
    (rows : List Annotation) (dryRun : Bool) : Except TopologyError (State V) :=
  match rows, rowErrors str operator seen rows with
  | [], _ => .ok g
  | _, err :: errs => .error (.bulkImportValidation (err :: errs))
  | _, [] => if dryRun then .ok g else rows.foldlM (annotateEdge str operator) g

end Meho.Graph
