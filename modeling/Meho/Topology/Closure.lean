import Mathlib.Order.WithBot
import Mathlib.Data.List.Dedup
import Mathlib.Data.String.Basic
import Meho.Auth.Operator
import Meho.Json
import Meho.Lib.Query

/- The closure of a node in the topology graph (topology/query.py, topology/evidence.py,
topology/resolvers.py).

`find_dependents` and `find_dependencies` run one recursive statement over all paths from
the anchor that do not come back to a node, and keep of each node the row of the
shortest. `bounded_closure` goes hop by hop: a statement of a hop expands the nodes of
the hop before, skips those already in the answer, and returns a bounded number of rows
and of bytes; one hop past the depth a single row is asked for, to see that there is more.

Correspondence: `_TRAVERSAL_SQL_REVERSE` and `_TRAVERSAL_SQL_FORWARD` ↔
`traversalSql`, `_CLOSURE_ANCHOR_SQL` ↔ `closureAnchorSql`,
`_CLOSURE_STEP_SQL_REVERSE` and `_CLOSURE_STEP_SQL_FORWARD` ↔
`closureStepSql`; what is not listed keeps its name. The two directions differ
 in the ends of an edge only, so they are one definition. PostgreSQL's
collation and its text of a JSON document are parameters, and whether each
statement of the bounded walk comes back before the deadline. -/
namespace Meho.Topology
open Meho.Lib

/-- A row of `graph_node`. -/
structure GraphNode where
  id : Nat
  tenantId : Nat
  kind : String
  name : String
  source : String
  sourceScope : Option String
  properties : Dict
  lastSeen : Option Time

/-- A row of `graph_edge`. -/
structure GraphEdge where
  id : Nat
  tenantId : Nat
  fromNodeId : Nat
  toNodeId : Nat
  kind : String
  source : String
  properties : Dict
  lastSeen : Option Time

/-- The two tables, each with its primary key. -/
structure Graph where
  nodes : List GraphNode
  edges : List GraphEdge
  node_ids : (nodes.map GraphNode.id).Nodup
  edge_ids : (edges.map GraphEdge.id).Nodup

/-- What the database brings: how it orders text, and how it prints a document. -/
structure Database (κ : Type) where
  collate : String → κ
  jsonbText : Dict → String

/-! ## Arguments -/

def mappedRelationKinds : List (String × String) :=
  [("belongs-to", "containment"), ("runs-on", "placement"), ("authenticates-via", "dependency")]

def relationClasses : List String := ["containment", "placement", "dependency", "unknown"]

/-- Kinds to keep and kinds to leave out; `none` for a class that does not exist. -/
def relationClassKindFilter : Option String → Option (Option (List String) × Option (List String))
  | none => some (none, none)
  | some relationClass =>
    if relationClass ∉ relationClasses then none
    else if relationClass = "unknown" then some (none, some (mappedRelationKinds.map Prod.fst))
    else some (some ((mappedRelationKinds.filter (·.2 = relationClass)).map Prod.fst), none)

/-- The filters of a walk, as the statements bind them. -/
structure WalkParams where
  tenantId : Nat
  reverse : Bool
  kindFilter : Option String
  classKinds : Option (List String)
  classExcludedKinds : Option (List String)
  includeStale : Bool

/-- `source_scope LIKE 'legacy:%'`. -/
def isLegacyScope : Option String → Bool
  | some scope => "legacy:".toList.isPrefixOf scope.toList
  | none => false

/-- `e.properties->>'superseded_by' IS NULL`. -/
def notSuperseded (e : GraphEdge) : Bool :=
  match dictGet e.properties "superseded_by" with
  | some .null | none => true
  | some _ => false

/-- The end of an edge that a step starts from. -/
def WalkParams.parentEnd (q : WalkParams) (e : GraphEdge) : Nat :=
  if q.reverse then e.toNodeId else e.fromNodeId

/-- The end of an edge that a step leads to. -/
def WalkParams.childEnd (q : WalkParams) (e : GraphEdge) : Nat :=
  if q.reverse then e.fromNodeId else e.toNodeId

/-- The conditions that both traversals put on an edge and the node it leads to. -/
def WalkParams.admits (q : WalkParams) (e : GraphEdge) (n : GraphNode) : Bool :=
  e.tenantId = q.tenantId && n.tenantId = q.tenantId && !isLegacyScope n.sourceScope &&
    q.kindFilter.all (e.kind = ·) && q.classKinds.all (e.kind ∈ ·) &&
    q.classExcludedKinds.all (e.kind ∉ ·) && notSuperseded e &&
    (q.includeStale || (n.lastSeen.isSome && e.lastSeen.isSome))

inductive ClosureError where
  | notFound (name : String) (kind : Option String)
  | ambiguous (name : String) (kinds scopes : List String)
  | relationClass (got : String)
  | budget
  deriving DecidableEq, Repr

/-- The tenant's row of a name (and of a kind, where one is given), if there is just one. -/
def resolveNode (g : Graph) (tenantId : Nat) (name : String) (kind : Option String) :
    Except ClosureError GraphNode :=
  let candidates := g.nodes.filter fun n =>
    n.tenantId = tenantId && n.name = name && !isLegacyScope n.sourceScope && kind.all (n.kind = ·)
  let sorted (xs : List String) : List String := orderBy (fun x : String => x) xs
  let kinds := sorted (candidates.map GraphNode.kind).dedup
  match candidates with
  | [] => .error (.notFound name kind)
  | [n] => .ok n
  | _ =>
    if 1 < kinds.length then .error (.ambiguous name kinds [])
    else .error (.ambiguous name kinds
      (sorted (candidates.map fun n => n.sourceScope.getD "unresolved")))

structure TopologyNode where
  id : Nat
  kind : String
  name : String
  source : String
  sourceScope : Option String
  properties : Dict
  lastSeen : Option Time
  depth : Nat
  viaEdgeKind : Option String
  parentNodeId : Option Nat
  viaEdgeId : Option Nat
  viaEdgeSource : Option String
  viaEdgeLastSeen : Option Time

/-- A node of an answer, with the edge it was reached by and the node before it. -/
def topologyNode (n : GraphNode) (properties : Dict) (depth : Nat) (via : Option (Nat × GraphEdge)) :
    TopologyNode :=
  { id := n.id, kind := n.kind, name := n.name, source := n.source, sourceScope := n.sourceScope
    properties, lastSeen := n.lastSeen, depth
    viaEdgeKind := via.map (·.2.kind), parentNodeId := via.map (·.1), viaEdgeId := via.map (·.2.id)
    viaEdgeSource := via.map (·.2.source), viaEdgeLastSeen := via.bind (·.2.lastSeen) }

/-! ## The recursive statement -/

/-- One row of the recursive statement: a path, at its last node. -/
structure WalkRow where
  node : GraphNode
  depth : Nat
  via : Option (Nat × GraphEdge)
  path : List Nat
  isCycle : Bool

section Statements
variable {κ : Type} [LinearOrder κ] (db : Database κ) (g : Graph) (q : WalkParams)

/-- The steps from a node: each edge that starts there with the node it leads to. -/
def stepsFrom (parentId : Nat) : List (GraphEdge × GraphNode) :=
  (g.edges.filter fun e => q.parentEnd e = parentId).flatMap fun e =>
    (g.nodes.filter fun n => n.id = q.childEnd e && q.admits e n).map fun n => (e, n)

/-- The recursive term: a path goes on if it has not come back to a node. -/
def extendRow (w : WalkRow) : List WalkRow :=
  if w.isCycle then []
  else (stepsFrom g q w.node.id).map fun (e, n) =>
    ⟨n, w.depth + 1, some (w.node.id, e), w.path ++ [n.id], decide (n.id ∈ w.path)⟩

/-- The paths of `k` steps. -/
def walkRows (anchorId : Nat) : Nat → List WalkRow
  | 0 => (g.nodes.filter fun n => n.id = anchorId && n.tenantId = q.tenantId).map fun n =>
      ⟨n, 0, none, [n.id], false⟩
  | k + 1 => (walkRows anchorId k).flatMap (extendRow g q)

/-- `parent_node_id` and `via_edge_id`, nulls last. -/
def viaKey (via : Option (Nat × GraphEdge)) : WithTop Nat ×ₗ WithTop Nat :=
  toLex (via.map (·.1), via.map (·.2.id))

/-- `DISTINCT ON (id) … ORDER BY id, depth, name, parent_node_id, via_edge_id`. -/
def WalkRow.key (w : WalkRow) : Nat ×ₗ Nat ×ₗ κ ×ₗ WithTop Nat ×ₗ WithTop Nat :=
  toLex (w.node.id, toLex (w.depth, toLex (db.collate w.node.name, viaKey w.via)))

/-- `ORDER BY depth, name, id`. -/
def closureKey (n : TopologyNode) : Nat ×ₗ κ ×ₗ Nat :=
  toLex (n.depth, toLex (db.collate n.name, n.id))

def rowToNode (w : WalkRow) : TopologyNode := topologyNode w.node w.node.properties w.depth w.via

def traversalSql (anchorId depth : Nat) : List TopologyNode :=
  let walk := (List.range (depth + 1)).flatMap (walkRows g q anchorId)
  let deduped := distinctOn (·.node.id) (orderBy (WalkRow.key db) (walk.filter (!·.isCycle)))
  orderBy (closureKey db) (deduped.map rowToNode)

/-! ## The statements of the bounded walk -/

/-- A row of the bounded walk. `properties` is null in a row past the byte budget. -/
structure ClosureRow where
  node : GraphNode
  properties : Option Dict
  depth : Nat
  via : Option (Nat × GraphEdge)
  cumulativeBytes : Nat

/-- The stored bytes of a node's kind, name, scope and properties. -/
def rowBytes (n : GraphNode) : Nat :=
  n.kind.utf8ByteSize + n.name.utf8ByteSize + (n.sourceScope.map String.utf8ByteSize).getD 0 +
    (db.jsonbText n.properties).utf8ByteSize

def closureAnchorSql (anchorId byteBudget : Nat) : List ClosureRow :=
  (g.nodes.filter fun n => n.id = anchorId && n.tenantId = q.tenantId).map fun n =>
    ⟨n, if rowBytes db n ≤ byteBudget then some n.properties else none, 0, none, rowBytes db n⟩

/-- A node that a hop reaches, with the edge and the node before it. -/
abbrev Reached := Nat × GraphEdge × GraphNode

/-- The steps out of the frontier to nodes that the answer does not have. -/
def reached (frontier visited : List Nat) : List Reached :=
  (g.edges.filter fun e => q.parentEnd e ∈ frontier).flatMap fun e =>
    (g.nodes.filter fun n => n.id = q.childEnd e && n.id ∉ visited && q.admits e n).map fun n =>
      (q.parentEnd e, e, n)

/-- `GROUP BY id, name ORDER BY name, id LIMIT row_limit`. -/
def picked (frontier visited : List Nat) (rowLimit : Nat) : List GraphNode :=
  (orderBy (fun n : GraphNode => toLex (db.collate n.name, n.id))
    (distinctOn GraphNode.id ((reached g q frontier visited).map (·.2.2)))).take rowLimit

/-- `DISTINCT ON (id) … ORDER BY id, parent_node_id, via_edge_id`: a node's edge. -/
def viaOf (rows : List Reached) (id : Nat) : Option (Nat × GraphEdge) :=
  ((distinctOn (·.2.2.id) (orderBy (fun x : Reached => toLex (x.2.2.id, viaKey (some (x.1, x.2.1))))
    rows)).find? (·.2.2.id = id)).map fun x => (x.1, x.2.1)

/-- Nodes are loaded while the bytes before them are within the budget. -/
def loaded (byteBudget depth : Nat) (via : Nat → Option (Nat × GraphEdge)) :
    Nat → List GraphNode → List ClosureRow
  | _, [] => []
  | bytesBefore, n :: rest =>
    if bytesBefore ≤ byteBudget then
      let bytes := bytesBefore + rowBytes db n
      ⟨n, if bytes ≤ byteBudget then some n.properties else none, depth, via n.id, bytes⟩ ::
        loaded byteBudget depth via bytes rest
    else []

def closureStepSql (byteBudget : Nat) (frontier visited : List Nat) (depth rowLimit bytesBefore : Nat) :
    List ClosureRow :=
  loaded db byteBudget depth (viaOf (reached g q frontier visited)) bytesBefore
    (picked db g q frontier visited rowLimit)

end Statements

/-! ## The bounded walk -/

/-- The limits of one closure. -/
structure ClosureBudget where
  maxNodes : Nat
  maxBytes : Nat
  timeBudgetMs : Nat

def defaultClosureBudget : ClosureBudget := ⟨2000, 4 * 1024 * 1024, 5000⟩

inductive ClosureLimit where
  | hopLimit
  | nodeLimit
  | byteLimit
  | timeBudget
  deriving DecidableEq, Repr

/-- A closure, and how far it came. -/
structure BoundedClosure where
  root : Option TopologyNode
  nodes : List TopologyNode
  limitHit : Option ClosureLimit
  depth : Nat
  budget : ClosureBudget

section Walk
variable {κ : Type} [LinearOrder κ] (db : Database κ) (g : Graph) (q : WalkParams)
  (budget : ClosureBudget) (inTime : Nat → Bool)

/-- The hops still to go, the next of them `hop`. -/
def walkHops (depth : Nat) : Nat → Nat → List ClosureRow → List Nat → List Nat →
    Option (List ClosureRow)
  | 0, _, rows, _, _ => some rows
  | hops + 1, hop, rows, frontier, visited =>
    match rows.getLast? with
    | none => some rows
    | some last =>
      let remaining := budget.maxNodes + 1 - rows.length
      if remaining < 1 ∨ budget.maxBytes < last.cumulativeBytes then some rows
      else if !inTime (hop + 1) then none
      else
        let step := closureStepSql db g q budget.maxBytes frontier visited hop
          (if depth < hop then 1 else remaining) last.cumulativeBytes
        if step.isEmpty then some rows
        else
          let ids := step.map (·.node.id)
          walkHops depth hops (hop + 1) (rows ++ step) ids (visited ++ ids)

/-- `none` when the time ran out. -/
def boundedWalk (anchorId depth : Nat) : Option (List ClosureRow) :=
  if !inTime 1 then none
  else
    let rows := closureAnchorSql db g q anchorId budget.maxBytes
    if rows.isEmpty then some rows
    else walkHops db g q budget inTime depth (depth + 1) 1 rows [anchorId] [anchorId]

def closureRowToNode (r : ClosureRow) : TopologyNode :=
  topologyNode r.node (r.properties.getD []) r.depth r.via

/-- The rows within the depth and the budget, and the limit that stopped them. -/
def cutClosureRows (depth : Nat) : List TopologyNode → List ClosureRow →
    List TopologyNode × Option ClosureLimit
  | kept, [] => (kept, none)
  | kept, row :: rows =>
    if depth < row.depth then (kept, some .hopLimit)
    else if kept ≠ [] ∧ budget.maxBytes < row.cumulativeBytes then (kept, some .byteLimit)
    else if budget.maxNodes ≤ kept.length then (kept, some .nodeLimit)
    else if budget.maxBytes < row.cumulativeBytes then
      (kept ++ [closureRowToNode row], some .byteLimit)
    else cutClosureRows depth (kept ++ [closureRowToNode row]) rows

end Walk

/-! ## The two verbs -/

/-- The arguments that both verbs take. -/
structure ClosureRequest where
  tenantId : Nat
  name : String
  reverse : Bool
  kind : Option String
  depth : Nat
  kindFilter : Option String
  relationClass : Option String
  includeStale : Bool

def ClosureRequest.params (r : ClosureRequest) : Except ClosureError WalkParams :=
  match relationClassKindFilter r.relationClass with
  | none => .error (.relationClass (r.relationClass.getD ""))
  | some (classKinds, classExcludedKinds) =>
    .ok ⟨r.tenantId, r.reverse, r.kindFilter, classKinds, classExcludedKinds, r.includeStale⟩

section Verbs
variable {κ : Type} [LinearOrder κ] (db : Database κ) (g : Graph)

/-- `find_dependents` and `find_dependencies`. -/
def traverse (r : ClosureRequest) : Except ClosureError (List TopologyNode) := do
  let q ← r.params
  let anchor ← resolveNode g r.tenantId r.name r.kind
  .ok (traversalSql db g q anchor.id r.depth)

def boundedClosure (inTime : Nat → Bool) (r : ClosureRequest) (budget : ClosureBudget) :
    Except ClosureError BoundedClosure := do
  if budget.maxNodes < 1 ∨ budget.maxBytes < 1 ∨ budget.timeBudgetMs < 1 then .error .budget
  else
    let q ← r.params
    if !inTime 0 then .ok ⟨none, [], some .timeBudget, r.depth, budget⟩
    else
      let node ← resolveNode g r.tenantId r.name r.kind
      let root := topologyNode node [] 0 none
      match boundedWalk db g q budget inTime node.id r.depth with
      | none => .ok ⟨some root, [], some .timeBudget, r.depth, budget⟩
      | some rows =>
        let (nodes, limitHit) := cutClosureRows budget r.depth [] rows
        .ok ⟨some root, nodes, limitHit, r.depth, budget⟩

end Verbs

end Meho.Topology
