import Meho.Graph.ScopePlanExact

/- The scope cut-over (topology/scope_repair/cutover.py, stage.py and store.py).

A staged plan is applied in one transaction, if the graph is still what it was staged on
and the targets are. Old nodes get their scope, new ones are inserted; adopted edges are
seen again, an edge with a set-aside end is retired if a probe found it, and an edge that
no target reported again is deleted behind its tombstone.

Correspondence: `load_graph` ↔ `loadNodes`, `loadEdges`; `snapshot_version` ↔
`snapshotVersion` (the digest is of the rows in order of their ids, which are
kept here); `stage_scope_repair` ↔ `stage`; `_apply_nodes` ↔ `nodeWrite`;
`_delete_edge`, `_apply_edges` ↔ `edgeWrite`; what is not listed keeps its
name. What a manifest's status becomes, the audit rows and the counts are left
out. -/
namespace Meho.Graph
open Meho.Lib Meho.Lib.Assoc Meho.Lib.Journal

variable {V : Type}

/-! ## Staging -/

def oldNode (n : NodeRow V) : OldNode where
  id := n.id
  tenantId := n.tenantId
  kind := n.kind
  name := n.name
  source := n.source
  sourceScope := n.sourceScope
  live := n.lastSeen.isSome

def oldEdge (e : EdgeRow V) : OldEdge where
  id := e.id
  tenantId := e.tenantId
  fromNodeId := e.fromNodeId
  toNodeId := e.toNodeId
  kind := e.kind
  source := e.source
  live := e.lastSeen.isSome

def loadNodes (g : State V) : List OldNode := g.nodes.rows.map oldNode

def loadEdges (g : State V) : List OldEdge := g.edges.rows.map oldEdge

/-- What the fingerprint is of. -/
abbrev Snapshot := List OldNode × List OldEdge

def snapshotVersion (nodes : List OldNode) (edges : List OldEdge) : Snapshot :=
  (orderBy OldNode.id nodes, orderBy OldEdge.id edges)

inductive ManifestStatus where
  | staged
  | incomplete
  | cutOver
  | refused
  deriving DecidableEq, Repr

def ManifestStatus.value : ManifestStatus → String
  | .staged => "staged"
  | .incomplete => "incomplete"
  | .cutOver => "cut_over"
  | .refused => "refused"

/-- A staged plan with the snapshot it was made from. -/
structure StoredManifest where
  id : Nat
  status : ManifestStatus
  snapshot : Snapshot
  plan : RepairPlan

/-- The manifest of a staging run over this graph. -/
def stage (str : Nat → String) (g : State V) (discoveries : List (TargetDiscovery V))
    (newId : Nat → Nat) (id : Nat) : StoredManifest :=
  let plan := buildPlan str (loadNodes g) (loadEdges g) discoveries newId
  { id := id
    status := if plan.complete then .staged else .incomplete
    snapshot := snapshotVersion (loadNodes g) (loadEdges g)
    plan := plan }

/-! ## The checks -/

structure CutoverRefused where
  reason : String
  detail : String
  deriving DecidableEq

section Checks
variable (str : Nat → String)

def malformed (p : PlannedNode) : Bool := p.action = .legacy && p.scope ≠ .legacy p.nodeId

def checkPlan (plan : RepairPlan) : Except CutoverRefused Unit :=
  match plan.problems with
  | problem :: _ =>
    let reason := if problem.code = .targetUnavailable then "target_unavailable" else "unresolved_edge"
    .error ⟨reason, problem.detail⟩
  | [] =>
    match plan.targets.filter (!·.available) with
    | target :: _ => .error ⟨"target_unavailable", str target.targetId⟩
    | [] =>
      match plan.nodes.find? malformed with
      | some p => .error ⟨"malformed_scope", p.kind ++ "/" ++ p.name ++ ": '" ++ p.scope.text str ++ "'"⟩
      | none => .ok ()

/-- The live target set is the staged one. -/
def checkTargetsLive (plan : RepairPlan) (live : List Nat) : Except CutoverRefused Unit :=
  let staged := plan.targets.map TargetReport.targetId
  match orderBy (fun t : Nat => t) (staged.filter (· ∉ live)) with
  | t :: _ => .error ⟨"target_unavailable", str t⟩
  | [] =>
    match orderBy (fun t : Nat => t) (live.filter (· ∉ staged)) with
    | t :: _ => .error ⟨"target_added", str t⟩
    | [] => .ok ()

def lockAndLoad (g : State V) (live : List Nat) (m : StoredManifest) : Except CutoverRefused Unit :=
  if g.isScoped then .error ⟨"already_scoped", ""⟩
  else if m.status ≠ .staged then .error ⟨"manifest_" ++ m.status.value, ""⟩
  else do
    checkPlan str m.plan
    if snapshotVersion (loadNodes g) (loadEdges g) ≠ m.snapshot then
      throw ⟨"snapshot_changed", ""⟩
    checkTargetsLive str m.plan live

end Checks

/-! ## Applying -/

/-- `planned.discovered_by or "unknown"`. -/
def orUnknown : Option String → String
  | none | some "" => "unknown"
  | some s => s

def applyExistingNode (row : NodeRow V) (p : PlannedNode) (provenance : String) : NodeRow V :=
  let row := { row with sourceScope := some p.scope, sourceScopeProvenance := some provenance }
  match p.action with
  | .adopt =>
    let targetId := if row.source = .auto && p.targetId.isSome then p.targetId else row.targetId
    { row with targetId := targetId, lastSeen := p.observedAt }
  | .legacy => if row.source = .auto then { row with lastSeen := none } else row
  | _ => row

def newNode (p : PlannedNode) (provenance : String) (now : Time) : NodeRow V where
  id := p.nodeId
  tenantId := p.tenantId
  kind := p.kind
  name := p.name
  targetId := p.targetId
  source := .auto
  properties := ∅
  discoveredBy := orUnknown p.discoveredBy
  firstSeen := p.observedAt.getD now
  lastSeen := some (p.observedAt.getD now)
  sourceScope := some p.scope
  sourceScopeProvenance := some provenance

/-- What the cut-over does for a planned node; nothing when its row is gone. -/
def nodeWrite [DecidableEq V] (g : State V) (provenance : String) (now : Time) (p : PlannedNode) :
    Option (Write (NodeRow V)) :=
  if p.action = .publish then some (.insert (newNode p provenance now))
  else (g.node p.nodeId).map fun row =>
    let new := applyExistingNode row p provenance
    if nodeSnapshot new ≠ nodeSnapshot row then .update row new else .sight row new

def newEdge (p : PlannedEdge) (now : Time) : EdgeRow V where
  id := p.edgeId
  tenantId := p.tenantId
  fromNodeId := p.fromNodeId
  toNodeId := p.toNodeId
  kind := p.kind
  source := .auto
  properties := ∅
  discoveredBy := orUnknown p.discoveredBy
  firstSeen := p.observedAt.getD now
  lastSeen := some (p.observedAt.getD now)

def applyExistingEdge (row : EdgeRow V) (p : PlannedEdge) : EdgeRow V :=
  if p.action = .adopt then { row with lastSeen := p.observedAt }
  else if row.source = .auto then { row with lastSeen := none }
  else row

/-- What the cut-over does for a planned edge; nothing when its row is gone. -/
def edgeWrite (g : State V) (now : Time) (p : PlannedEdge) : Option (Write (EdgeRow V)) :=
  if p.action = .publish then some (.insert (newEdge p now))
  else (g.edge p.edgeId).map fun row =>
    if p.action = .quarantine ∧ p.reason = "not_rediscovered" then .remove row
    else
      let new := applyExistingEdge row p
      -- A sighting is not worth a history row.
      if row.lastSeen.isSome = new.lastSeen.isSome then .sight row new
      else if row.lastSeen.isSome then .retire row new
      else .update row new

/-- Steps 5 to 8. A missing row or a constraint that fails rolls everything back. -/
def applyPlan [DecidableEq V] (str : Nat → String) (g : State V) (m : StoredManifest) (now : Time) :
    Option (State V) := do
  let provenance := "scope-repair:" ++ str m.id
  let nodeWrites ← m.plan.nodes.mapM (nodeWrite g provenance now)
  let edgeWrites ← m.plan.edges.mapM (edgeWrite g now)
  g.transact true now nodeWrites edgeWrites

/-- The cut-over, or why it did not start; `none` for one that was rolled back. -/
def cutOver [DecidableEq V] (str : Nat → String) (g : State V) (live : List Nat)
    (m : StoredManifest) (now : Time) : Except CutoverRefused (Option (State V)) := do
  lockAndLoad str g live m
  return applyPlan str g m now

end Meho.Graph
