import Mathlib.Data.Finmap
import Meho.Auth.Operator
import Meho.Lib.Journal
import Meho.Topology.Closure

/- The two tables of the topology graph, as its writers see them.

Correspondence: db/models.py `GraphNode`, `GraphEdge`, `GraphNodeHistory`,
`GraphEdgeHistory` ↔ `NodeRow`, `EdgeRow`, `Lib.Journal.Entry`, their indexes and foreign
keys ↔ `State.Constraints`; topology/history.py `node_snapshot`, `edge_snapshot`,
`record_node_change`, `record_edge_change` ↔ the instances of `Recorded`;
topology/identity_mode.py `scope_for_discovered_node` ↔ `scopeForDiscoveredNode`;
connectors/schemas.py `NodeHint`, `EdgeHint`, `TopologyHints`.

A properties column is a finite map. `Value` tells apart what the writers put there or
look for: an id as text, the list of ids of `conflicts_with`, a time as text. Every other
JSON value is of a type `V`, whose equality is Python's. The history's `audit_id` is left
out, and the audit rows are, which nothing here reads. -/
namespace Meho.Graph
open Meho.Lib.Journal

/-! ## Rows -/

/-- A value of a properties column. -/
inductive Value (V : Type) where
  | null
  | text (s : String)
  | isoformat (t : Time)
  | uuid (id : Nat)
  | uuids (ids : List Nat)
  | other (v : V)
  deriving DecidableEq

abbrev Properties (V : Type) : Type := Finmap fun _ : String => Value V

/-- `source`: a probe found the row, or an operator stated it. -/
inductive Source where
  | auto
  | curated
  deriving DecidableEq, Repr

/-- `source_scope`, where a node's name is unique. -/
inductive Scope where
  | global
  | legacy (id : Nat)
  | target (id : Nat)
  deriving DecidableEq, Repr

namespace Scope

/-- The text of the column; `str` prints an id. -/
def text (str : Nat → String) : Scope → String
  | .global => "global"
  | .legacy id => "legacy:" ++ str id
  | .target id => "target:" ++ str id

/-- `scope.startswith("legacy:")`. -/
def isLegacy : Scope → Bool
  | .legacy _ => true
  | _ => false

/-- The order of the texts. -/
def order : Scope → Nat ×ₗ Nat
  | .global => toLex (0, 0)
  | .legacy id => toLex (1, id)
  | .target id => toLex (2, id)

end Scope

structure NodeRow (V : Type) where
  id : Nat
  tenantId : Nat
  kind : String
  name : String
  targetId : Option Nat
  source : Source
  properties : Properties V
  discoveredBy : String
  firstSeen : Time
  lastSeen : Option Time
  sourceScope : Option Scope
  sourceScopeProvenance : Option String
  deriving DecidableEq

structure EdgeRow (V : Type) where
  id : Nat
  tenantId : Nat
  fromNodeId : Nat
  toNodeId : Nat
  kind : String
  source : Source
  properties : Properties V
  discoveredBy : String
  firstSeen : Time
  lastSeen : Option Time
  deriving DecidableEq

/-! ## Snapshots -/

/-- `_NODE_SNAPSHOT_COLUMNS`. -/
structure NodeSnapshot (V : Type) where
  id : Nat
  kind : String
  name : String
  targetId : Option Nat
  source : Source
  properties : Properties V
  discoveredBy : String
  firstSeen : Time
  lastSeen : Option Time
  sourceScope : Option Scope
  deriving DecidableEq

/-- `_EDGE_SNAPSHOT_COLUMNS`. -/
structure EdgeSnapshot (V : Type) where
  id : Nat
  fromNodeId : Nat
  toNodeId : Nat
  kind : String
  source : Source
  properties : Properties V
  discoveredBy : String
  firstSeen : Time
  lastSeen : Option Time
  deriving DecidableEq

variable {V : Type}

def nodeSnapshot (n : NodeRow V) : NodeSnapshot V where
  id := n.id
  kind := n.kind
  name := n.name
  targetId := n.targetId
  source := n.source
  properties := n.properties
  discoveredBy := n.discoveredBy
  firstSeen := n.firstSeen
  lastSeen := n.lastSeen
  sourceScope := n.sourceScope

def edgeSnapshot (e : EdgeRow V) : EdgeSnapshot V where
  id := e.id
  fromNodeId := e.fromNodeId
  toNodeId := e.toNodeId
  kind := e.kind
  source := e.source
  properties := e.properties
  discoveredBy := e.discoveredBy
  firstSeen := e.firstSeen
  lastSeen := e.lastSeen

instance : Recorded (NodeRow V) (NodeSnapshot V) where
  rowId := NodeRow.id
  rowTenant := NodeRow.tenantId
  snapshot := nodeSnapshot
  snapshotId := NodeSnapshot.id
  snapshotId_snapshot _ := rfl

instance : Recorded (EdgeRow V) (EdgeSnapshot V) where
  rowId := EdgeRow.id
  rowTenant := EdgeRow.tenantId
  snapshot := edgeSnapshot
  snapshotId := EdgeSnapshot.id
  snapshotId_snapshot _ := rfl

@[simp] theorem id_node (n : NodeRow V) : rowId n = n.id := rfl

@[simp] theorem id_edge (e : EdgeRow V) : rowId e = e.id := rfl

/-! ## Hints -/

/-- A node as a connector reports it. -/
structure NodeHint (V : Type) where
  kind : String
  name : String
  properties : Properties V
  deriving DecidableEq

/-- An edge as a connector reports it. -/
structure EdgeHint (V : Type) where
  fromKind : String
  fromName : String
  toKind : String
  toName : String
  kind : String
  properties : Properties V
  deriving DecidableEq

/-- What a target reports. -/
structure TopologyHints (V : Type) where
  nodes : List (NodeHint V)
  edges : List (EdgeHint V)
  deriving DecidableEq

/-- The target's own node is known to the whole tenant, every other only to the target. -/
def scopeForDiscoveredNode (targetId : Nat) (kind : String) : Scope :=
  if kind = "target" then .global else .target targetId

theorem not_isLegacy_scopeForDiscoveredNode (targetId : Nat) (kind : String) :
    (scopeForDiscoveredNode targetId kind).isLegacy = false := by
  unfold scopeForDiscoveredNode
  split <;> rfl

/-! ## The graph -/

/-- Both tables with their histories, and the identity mode. -/
structure State (V : Type) where
  nodes : Store (NodeRow V) (NodeSnapshot V)
  edges : Store (EdgeRow V) (EdgeSnapshot V)
  isScoped : Bool

namespace State

/-- Before the first write. -/
def empty : State V := ⟨⟨[], []⟩, ⟨[], []⟩, false⟩

def node (g : State V) (i : Nat) : Option (NodeRow V) := g.nodes.row i

def edge (g : State V) (i : Nat) : Option (EdgeRow V) := g.edges.row i

/-- What the database demands of the tables: primary keys, the unique indexes of the mode,
and that the ends of an edge exist. -/
structure Constraints (g : State V) : Prop where
  node_ids : (g.nodes.rows.map NodeRow.id).Nodup
  edge_ids : (g.edges.rows.map EdgeRow.id).Nodup
  natural_key : if g.isScoped
    then (g.nodes.rows.map fun n => (n.tenantId, n.sourceScope, n.kind, n.name)).Nodup ∧
      ∀ n ∈ g.nodes.rows, n.sourceScope ≠ none
    else (g.nodes.rows.map fun n => (n.tenantId, n.kind, n.name)).Nodup
  edge_key : (g.edges.rows.map fun e => (e.tenantId, e.fromNodeId, e.toNodeId, e.kind)).Nodup
  ends : ∀ e ∈ g.edges.rows,
    e.fromNodeId ∈ g.nodes.rows.map NodeRow.id ∧ e.toNodeId ∈ g.nodes.rows.map NodeRow.id

instance (g : State V) : Decidable g.Constraints :=
  decidable_of_iff _ ⟨fun h => ⟨h.1, h.2.1, h.2.2.1, h.2.2.2.1, h.2.2.2.2⟩,
    fun h => And.intro h.node_ids <| And.intro h.edge_ids <| And.intro h.natural_key <|
      And.intro h.edge_key h.ends⟩

/-- The end of a transaction: it is rolled back when a constraint does not hold. -/
def commit (g : State V) : Option (State V) := if g.Constraints then some g else none

theorem constraints_of_commit {g g' : State V} (h : g.commit = some g') : g' = g ∧ g'.Constraints := by
  unfold commit at h
  split at h
  · rename_i hc
    cases h
    exact ⟨rfl, hc⟩
  · cases h

/-- The writes of a transaction to both tables. -/
def write (g : State V) (now : Time) (nodeWrites : List (Write (NodeRow V)))
    (edgeWrites : List (Write (EdgeRow V))) : State V :=
  { g with
    nodes := g.nodes.writeAll now nodeWrites
    edges := g.edges.writeAll now edgeWrites }

/-- A transaction that leaves the graph in the given identity mode. A new id that is taken
fails at once, every other constraint at the end at the latest. -/
def transact (g : State V) (isScoped : Bool) (now : Time) (nodeWrites : List (Write (NodeRow V)))
    (edgeWrites : List (Write (EdgeRow V))) : Option (State V) :=
  if g.nodes.Accepts nodeWrites ∧ g.edges.Accepts edgeWrites then
    { g.write now nodeWrites edgeWrites with isScoped := isScoped }.commit
  else none

theorem transact_eq_some {g g' : State V} {isScoped : Bool} {now : Time}
    {nodeWrites : List (Write (NodeRow V))} {edgeWrites : List (Write (EdgeRow V))}
    (h : g.transact isScoped now nodeWrites edgeWrites = some g') :
    (g.nodes.Accepts nodeWrites ∧ g.edges.Accepts edgeWrites) ∧ g'.Constraints ∧
      g' = { nodes := g.nodes.writeAll now nodeWrites
             edges := g.edges.writeAll now edgeWrites
             isScoped := isScoped } := by
  unfold transact at h
  split at h
  · rename_i hacc
    obtain ⟨rfl, hc⟩ := constraints_of_commit h
    exact ⟨hacc, hc, rfl⟩
  · cases h

end State
end Meho.Graph
