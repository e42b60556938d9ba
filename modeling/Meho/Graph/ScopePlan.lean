import Mathlib.Data.List.Dedup
import Mathlib.Data.Prod.Lex
import Mathlib.Data.String.Basic
import Meho.Graph.Rows
import Meho.Lib.Assoc
import Meho.Lib.Query

/- Planning the scope cut-over (topology/scope_repair/plan.py).

For every tenant, what each target reports claims nodes in a scope. A row that one scope
claims is adopted into it, a row that several claim or nobody claims is set aside, except
for target nodes and operator seeds, and the claims that no row answers get new rows.
Discovered edges join the rows that their target's claims ended up as; every old edge
that no discovery adopts is set aside with an end, retired, or left to the operator.

Correspondence: each class and function keeps its name. The supply of ids is a
sequence, and a plan knows how many it took. The fingerprint
`snapshot_version` and the manifest's layout version are left out. -/
namespace Meho.Graph
open Meho.Lib Meho.Lib.Assoc

/-! ## What goes in and what comes out -/

/-- An existing node, as far as the plan needs it. -/
structure OldNode where
  id : Nat
  tenantId : Nat
  kind : String
  name : String
  source : Source
  sourceScope : Option Scope
  live : Bool
  deriving DecidableEq

/-- An existing edge, as far as the plan needs it. -/
structure OldEdge where
  id : Nat
  tenantId : Nat
  fromNodeId : Nat
  toNodeId : Nat
  kind : String
  source : Source
  live : Bool
  deriving DecidableEq

/-- What one target reported; no hints when it did not answer. -/
structure TargetDiscovery (V : Type) where
  tenantId : Nat
  targetId : Nat
  discoveredBy : String
  observedAt : Time
  hints : Option (TopologyHints V)
  failure : Option String
  deriving DecidableEq

structure TargetReport where
  tenantId : Nat
  targetId : Nat
  available : Bool
  failure : Option String
  nodeCount : Nat
  edgeCount : Nat
  deriving DecidableEq

inductive NodeAction where
  | adopt
  | keep
  | publish
  | legacy
  deriving DecidableEq, Repr

inductive EdgeAction where
  | adopt
  | publish
  | quarantine
  deriving DecidableEq, Repr

/-- A node, and what the cut-over makes of it. -/
structure PlannedNode where
  tenantId : Nat
  kind : String
  name : String
  scope : Scope
  action : NodeAction
  nodeId : Nat
  oldNodeId : Option Nat
  source : Source
  targetId : Option Nat
  discoveredBy : Option String
  observedAt : Option Time
  reason : String
  deriving DecidableEq

structure PlannedEdge where
  tenantId : Nat
  kind : String
  fromNodeId : Nat
  toNodeId : Nat
  action : EdgeAction
  edgeId : Nat
  oldEdgeId : Option Nat
  source : Source
  targetId : Option Nat
  discoveredBy : Option String
  observedAt : Option Time
  reason : String
  deriving DecidableEq

inductive ProblemCode where
  | targetUnavailable
  | unresolvedEdge
  | globalNameClaimedTwice
  deriving DecidableEq, Repr

def ProblemCode.value : ProblemCode → String
  | .targetUnavailable => "target_unavailable"
  | .unresolvedEdge => "unresolved_edge"
  | .globalNameClaimedTwice => "global_name_claimed_twice"

/-- Something that blocks the cut-over; what it is about is named. -/
structure PlanProblem where
  code : ProblemCode
  tenantId : Nat
  targetId : Option Nat
  detail : String
  deriving DecidableEq

structure RepairPlan where
  targets : List TargetReport
  nodes : List PlannedNode
  edges : List PlannedEdge
  problems : List PlanProblem
  deriving DecidableEq

/-- Every target answered and nothing is unresolved. -/
def RepairPlan.complete (p : RepairPlan) : Bool :=
  p.problems.isEmpty && p.targets.all TargetReport.available

/-- `(scope, kind, name)`. -/
abbrev NodeKey := Scope × String × String

/-- `(from_node_id, to_node_id, kind)`. -/
abbrev EdgeEnds := Nat × Nat × String

def NodeKey.order (k : NodeKey) : (Nat ×ₗ Nat) ×ₗ String ×ₗ String :=
  toLex (k.1.order, toLex (k.2.1, k.2.2))

def OldEdge.ends (e : OldEdge) : EdgeEnds := (e.fromNodeId, e.toNodeId, e.kind)

def PlannedNode.key (p : PlannedNode) : NodeKey := (p.scope, p.kind, p.name)

def PlannedEdge.ends (p : PlannedEdge) : EdgeEnds := (p.fromNodeId, p.toNodeId, p.kind)

section Plan
variable {V : Type} (str : Nat → String)

/-! ## The claims of one tenant -/

/-- The key in which a target claims a node of this kind and name. -/
def claimKey (targetId : Nat) (kind name : String) : NodeKey :=
  (scopeForDiscoveredNode targetId kind, kind, name)

/-- Who reported which scoped key. `claims` are the pairs of a key and a target that the
dictionary of sets holds. -/
structure TenantStage (V : Type) where
  claims : List (NodeKey × Nat)
  byTarget : List (Nat × TargetDiscovery V)
  targets : List TargetReport
  problems : List PlanProblem

namespace TenantStage

def owners (stage : TenantStage V) (key : NodeKey) : List Nat :=
  ((stage.claims.filter (·.1 = key)).map Prod.snd).dedup

/-- `sorted(claims)`. -/
def keys (stage : TenantStage V) : List NodeKey :=
  orderBy NodeKey.order (stage.claims.map Prod.fst).dedup

/-- Two targets claim the key. -/
def isConflict (stage : TenantStage V) (key : NodeKey) : Bool := 1 < (stage.owners key).length

/-- Every scope in which some target claims this kind and name. -/
def scopesFor (stage : TenantStage V) (kind name : String) : List Scope :=
  orderBy Scope.order
    ((stage.claims.filter fun c => c.1.2 = (kind, name)).map fun c => c.1.1).dedup

/-- The target behind a key that is not in conflict. -/
def claimant (stage : TenantStage V) (key : NodeKey) : Option (TargetDiscovery V) :=
  (stage.owners key).head?.bind (get stage.byTarget)

end TenantStage

/-- `_collect` over the discoveries in order. -/
def claimsOf (d : TargetDiscovery V) : List (NodeKey × Nat) :=
  match d.hints with
  | none => []
  | some hints => hints.nodes.map fun n => (claimKey d.targetId n.kind n.name, d.targetId)

def failureOf (d : TargetDiscovery V) : String :=
  match d.failure with
  | none | some "" => "no_answer"
  | some failure => failure

def reportOf (d : TargetDiscovery V) : TargetReport :=
  match d.hints with
  | none => ⟨d.tenantId, d.targetId, false, some (failureOf d), 0, 0⟩
  | some hints => ⟨d.tenantId, d.targetId, true, none, hints.nodes.length, hints.edges.length⟩

def unavailable (d : TargetDiscovery V) : List PlanProblem :=
  match d.hints with
  | none => [⟨.targetUnavailable, d.tenantId, some d.targetId, failureOf d⟩]
  | some _ => []

def tenantStage (tenantId : Nat) (discoveries : List (TargetDiscovery V)) : TenantStage V :=
  let asked := orderBy TargetDiscovery.targetId discoveries
  let stage : TenantStage V :=
    { claims := asked.flatMap claimsOf
      byTarget := ofPairs ((asked.filter (·.hints.isSome)).map fun d => (d.targetId, d))
      targets := asked.map reportOf
      problems := asked.flatMap unavailable }
  let conflicts := stage.keys.filter stage.isConflict
  { stage with
    problems := stage.problems ++ conflicts.map fun key =>
      ⟨.globalNameClaimedTwice, tenantId, none,
        key.1.text str ++ " " ++ key.2.1 ++ "/" ++ key.2.2⟩ }

/-! ## Nodes -/

/-- What the planner decides for one old node. -/
structure NodeDecision where
  action : NodeAction
  scope : Scope
  reason : String
  key : Option NodeKey

def oldNodeDecision (row : OldNode) (stage : TenantStage V) : NodeDecision :=
  match stage.scopesFor row.kind row.name with
  | [] =>
    if row.kind = "target" then ⟨.keep, .global, "target_node", none⟩
    else if row.source = .curated then ⟨.keep, .global, "curated", none⟩
    else ⟨.legacy, .legacy row.id, "not_rediscovered", none⟩
  | [scope] =>
    if stage.isConflict (scope, row.kind, row.name) then
      ⟨.legacy, .legacy row.id, "claimed_by_several_targets", none⟩
    else ⟨.adopt, scope, "rediscovered", some (scope, row.kind, row.name)⟩
  | _ => ⟨.legacy, .legacy row.id, "claimed_by_several_targets", none⟩

/-- What becomes of an existing row. -/
def plannedRow (tenantId : Nat) (stage : TenantStage V) (row : OldNode) : PlannedNode :=
  let decision := oldNodeDecision row stage
  let claimant := decision.key.bind stage.claimant
  { tenantId := tenantId
    kind := row.kind
    name := row.name
    scope := decision.scope
    action := decision.action
    nodeId := row.id
    oldNodeId := some row.id
    source := row.source
    targetId := claimant.map (·.targetId)
    discoveredBy := claimant.map (·.discoveredBy)
    observedAt := claimant.map (·.observedAt)
    reason := decision.reason }

/-- A new row for a claim that no row answers. -/
def publishedNode (tenantId : Nat) (stage : TenantStage V) (key : NodeKey) (id : Nat) :
    PlannedNode :=
  let claimant := stage.claimant key
  { tenantId := tenantId
    kind := key.2.1
    name := key.2.2
    scope := key.1
    action := .publish
    nodeId := id
    oldNodeId := none
    source := .auto
    targetId := claimant.map (·.targetId)
    discoveredBy := claimant.map (·.discoveredBy)
    observedAt := claimant.map (·.observedAt)
    reason := "newly_scoped" }

/-- The planned nodes, and the row id that each claim ended up as. -/
structure NodePlan where
  planned : List PlannedNode
  finalId : List (NodeKey × Nat)
  used : Nat

def planNodes (tenantId : Nat) (oldNodes : List OldNode) (stage : TenantStage V)
    (newId : Nat → Nat) (used : Nat) : NodePlan :=
  let rows := orderBy (fun r : OldNode => toLex (r.kind, r.name)) oldNodes
  let adopted := ofPairs <| rows.filterMap fun row =>
    (oldNodeDecision row stage).key.map fun key => (key, row.id)
  let new := stage.keys.filter fun key => (get adopted key).isNone && !stage.isConflict key
  let published := new.zipIdx used |>.map fun p => (p.1, newId p.2)
  { planned := rows.map (plannedRow tenantId stage) ++
      published.map fun p => publishedNode tenantId stage p.1 p.2
    finalId := adopted ++ published
    used := used + new.length }

/-! ## Edges -/

/-- How far the pass over the discovered edges has come. -/
structure EdgePass where
  seen : List EdgeEnds
  planned : List PlannedEdge
  problems : List PlanProblem
  used : Nat

section Edges
variable (tenantId : Nat) (finalId : List (NodeKey × Nat)) (oldByEnds : List (EdgeEnds × OldEdge))
  (newId : Nat → Nat)

def EdgeHint.order (h : EdgeHint V) : String ×ₗ String ×ₗ String ×ₗ String ×ₗ String :=
  toLex (h.fromKind, toLex (h.fromName, toLex (h.toKind, toLex (h.toName, h.kind))))

/-- One discovered edge of target `d`. -/
def planDiscoveredEdge (pass : EdgePass) (d : TargetDiscovery V) (e : EdgeHint V) : EdgePass :=
  let own := (claimsOf d).map Prod.fst
  let fromKey := claimKey d.targetId e.fromKind e.fromName
  let toKey := claimKey d.targetId e.toKind e.toName
  if fromKey ∉ own ∨ toKey ∉ own then
    let problem : PlanProblem :=
      ⟨.unresolvedEdge, tenantId, some d.targetId,
        e.fromKind ++ "/" ++ e.fromName ++ " -" ++ e.kind ++ "-> " ++ e.toKind ++ "/" ++ e.toName⟩
    { pass with problems := pass.problems ++ [problem] }
  else
    match get finalId fromKey, get finalId toKey with
    | some fromId, some toId =>
      let ends : EdgeEnds := (fromId, toId, e.kind)
      if ends ∈ pass.seen then pass
      else
        let edge (action : EdgeAction) (id : Nat) (oldId : Option Nat) (source : Source)
            (reason : String) : PlannedEdge :=
          { tenantId := tenantId
            kind := e.kind
            fromNodeId := fromId
            toNodeId := toId
            action := action
            edgeId := id
            oldEdgeId := oldId
            source := source
            targetId := some d.targetId
            discoveredBy := some d.discoveredBy
            observedAt := some d.observedAt
            reason := reason }
        match get oldByEnds ends with
        | some old =>
          { pass with
            seen := ends :: pass.seen
            planned := pass.planned ++ [edge .adopt old.id (some old.id) old.source "rediscovered"] }
        | none =>
          { pass with
            seen := ends :: pass.seen
            planned := pass.planned ++ [edge .publish (newId pass.used) none .auto "newly_scoped"]
            used := pass.used + 1 }
    -- An end is a global name in conflict, which is a problem already.
    | _, _ => pass

/-- The edges that the targets of a tenant report, in the order of the pass. -/
def discoveredEdges (stage : TenantStage V) : List (TargetDiscovery V × EdgeHint V) :=
  (orderBy Prod.fst stage.byTarget).flatMap fun entry =>
    match entry.2.hints with
    | some hints => (orderBy EdgeHint.order hints.edges).map fun e => (entry.2, e)
    | none => []

def planDiscoveredEdges (stage : TenantStage V) (used : Nat) : EdgePass :=
  (discoveredEdges stage).foldl
    (fun pass de => planDiscoveredEdge tenantId finalId oldByEnds newId pass de.1 de.2)
    ⟨[], [], [], used⟩

end Edges

/-- Why an old edge that no target reported again must leave the graph. -/
def quarantineReason (edge : OldEdge) (scopeOf : List (Nat × Scope)) : Option String :=
  let setAside (id : Nat) : Bool := (get scopeOf id).any Scope.isLegacy
  if setAside edge.fromNodeId || setAside edge.toNodeId then some "endpoint_set_aside"
  else if edge.source ≠ .curated then some "not_rediscovered"
  else none

def quarantined (tenantId : Nat) (e : OldEdge) (reason : String) : PlannedEdge where
  tenantId := tenantId
  kind := e.kind
  fromNodeId := e.fromNodeId
  toNodeId := e.toNodeId
  action := .quarantine
  edgeId := e.id
  oldEdgeId := some e.id
  source := e.source
  targetId := none
  discoveredBy := none
  observedAt := none
  reason := reason

/-- `{n.node_id: n.scope for n in nodes if n.old_node_id is not None}`. -/
def scopeOf (nodes : List PlannedNode) : List (Nat × Scope) :=
  ofPairs ((nodes.filter (·.oldNodeId.isSome)).map fun n => (n.nodeId, n.scope))

def planLeftoverEdges (tenantId : Nat) (oldEdges : List OldEdge) (nodes : List PlannedNode)
    (adopted : List Nat) : List PlannedEdge :=
  (orderBy OldEdge.id oldEdges).filterMap fun e =>
    if e.id ∈ adopted then none
    else (quarantineReason e (scopeOf nodes)).map (quarantined tenantId e)

/-! ## The plan -/

/-- The plan of one tenant, and how many ids were taken by then. -/
def planTenant (tenantId : Nat) (oldNodes : List OldNode) (oldEdges : List OldEdge)
    (discoveries : List (TargetDiscovery V)) (newId : Nat → Nat) (used : Nat) : RepairPlan × Nat :=
  let stage := tenantStage str tenantId discoveries
  let nodePlan := planNodes tenantId oldNodes stage newId used
  let oldByEnds := ofPairs (oldEdges.map fun e => (e.ends, e))
  let pass :=
    planDiscoveredEdges tenantId nodePlan.finalId oldByEnds newId stage nodePlan.used
  let adopted := pass.planned.filterMap PlannedEdge.oldEdgeId
  ({ targets := stage.targets
     nodes := nodePlan.planned
     edges := pass.planned ++ planLeftoverEdges tenantId oldEdges nodePlan.planned adopted
     problems := stage.problems ++ pass.problems }, pass.used)

def RepairPlan.append (p q : RepairPlan) : RepairPlan where
  targets := p.targets ++ q.targets
  nodes := p.nodes ++ q.nodes
  edges := p.edges ++ q.edges
  problems := p.problems ++ q.problems

variable (oldNodes : List OldNode) (oldEdges : List OldEdge)
  (discoveries : List (TargetDiscovery V)) (newId : Nat → Nat)

/-- The plans of the tenants, one after the other. -/
def planTenants : Nat → List Nat → RepairPlan
  | _, [] => ⟨[], [], [], []⟩
  | used, tenantId :: tenants =>
    let (plan, used) := planTenant str tenantId (oldNodes.filter (·.tenantId = tenantId))
      (oldEdges.filter (·.tenantId = tenantId)) (discoveries.filter (·.tenantId = tenantId))
      newId used
    plan.append (planTenants used tenants)

def planTenantIds : List Nat :=
  orderBy (fun t : Nat => t) (oldNodes.map OldNode.tenantId ++ discoveries.map (·.tenantId)).dedup

def buildPlan : RepairPlan :=
  planTenants str oldNodes oldEdges discoveries newId 0 (planTenantIds oldNodes discoveries)

end Plan
end Meho.Graph
