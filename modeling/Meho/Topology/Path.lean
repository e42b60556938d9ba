import Meho.Topology.ClosureBounded

/- The shortest path between two nodes (topology/query.py).

One recursive statement lists the paths from the first endpoint: a path that came back to
a node is marked and not extended, and neither is one that has met the second endpoint.
Of those that end there one with the fewest hops is taken.

A walk that the caller allows may pass an endpoint, live or not, wherever it likes; the
statement lets only the second endpoint be stale, and only at the end. A shortest walk meets
neither of them in between, so nothing is lost (`exists_pathRow`).

`max_hops` is a natural number here, and paths of equally many hops are taken in the order
 in which they are listed.

Correspondence: `_PATH_SQL` ↔ `pathSql` (its CTEs `target`, `bi_edge` and `walk` ↔
`target`, `biEdge` and `pathRows`), `_build_path_nodes` ↔ `buildPathNodes`; what is not
listed keeps its name. -/
namespace Meho.Topology
open Meho.Lib

inductive PathDirection where
  | undirected
  | forward
  | reverse
  deriving DecidableEq, Repr

/-- What the statement binds. -/
structure PathParams where
  tenantId : Nat
  fromId : Nat
  toId : Nat
  maxHops : Nat
  includeStale : Bool
  direction : PathDirection
  classKinds : Option (List String)
  classExcludedKinds : Option (List String)

/-- A path, at its last node. -/
structure PathRow where
  nodeId : Nat
  hops : Nat
  nodeIds : List Nat
  edgeKinds : List String
  edgeIds : List Nat
  isCycle : Bool

/-- The conditions that both legs of `bi_edge` put on an edge. -/
def PathParams.allows (q : PathParams) (e : GraphEdge) : Bool :=
  e.tenantId = q.tenantId && notSuperseded e && (q.includeStale || e.lastSeen.isSome) &&
    q.classKinds.all (e.kind ∈ ·) && q.classExcludedKinds.all (e.kind ∉ ·)

section Statement
variable (g : Graph) (q : PathParams)

def target : List GraphNode := g.nodes.filter fun n => n.id = q.toId && n.tenantId = q.tenantId

def isTarget (id : Nat) : Bool := (target g q).any (·.id = id)

/-- The edges with the end they are walked from and the end they lead to. -/
def biEdge : List (Nat × Nat × GraphEdge) :=
  (if q.direction ≠ .reverse then
    (g.edges.filter q.allows).map fun e => (e.fromNodeId, e.toNodeId, e) else []) ++
  (if q.direction ≠ .forward then
    (g.edges.filter q.allows).map fun e => (e.toNodeId, e.fromNodeId, e) else [])

/-- The conditions on the node that is stepped to. -/
def onto (dn : GraphNode) : Bool :=
  dn.tenantId = q.tenantId && !isLegacyScope dn.sourceScope &&
    (q.includeStale || dn.lastSeen.isSome || isTarget g q dn.id)

/-- The recursive term. -/
def extendPath (w : PathRow) : List PathRow :=
  if w.isCycle || isTarget g q w.nodeId || q.maxHops ≤ w.hops then []
  else ((biEdge g q).filter fun be => be.1 = w.nodeId).flatMap fun be =>
    (g.nodes.filter fun dn => dn.id = be.2.1 && onto g q dn).map fun _ =>
      ⟨be.2.1, w.hops + 1, w.nodeIds ++ [be.2.1], w.edgeKinds ++ [be.2.2.kind],
        w.edgeIds ++ [be.2.2.id], decide (be.2.1 ∈ w.nodeIds)⟩

/-- The paths of `k` hops. -/
def pathRows : Nat → List PathRow
  | 0 => (g.nodes.filter fun n => n.id = q.fromId && n.tenantId = q.tenantId).map fun n =>
      ⟨n.id, 0, [n.id], [], [], false⟩
  | k + 1 => (pathRows k).flatMap (extendPath g q)

def pathSql : Option PathRow :=
  (orderBy PathRow.hops (((List.range (q.maxHops + 1)).flatMap (pathRows g q)).filter fun w =>
    w.nodeId = q.toId && !w.isCycle)).head?

end Statement

/-! ## The verb -/

structure TopologyPath where
  nodes : List TopologyNode
  totalHops : Nat
  direction : PathDirection

inductive PathError where
  | resolve (e : ClosureError)
  | keyError (id : Nat)
  deriving DecidableEq, Repr

/-- The node at a position of the path. The edge of its hop stands one position before. -/
def buildPathNode (nodeIds : List Nat) (edgeKinds : List String) (edgeIds : List Nat)
    (edgesById : Nat → Option GraphEdge) (m : GraphNode) (position : Nat) : TopologyNode :=
  let ofHop {α : Type} (xs : List α) : Option α := if position = 0 then none else xs[position - 1]?
  let edge := (ofHop edgeIds).bind edgesById
  { id := m.id, kind := m.kind, name := m.name, source := m.source, sourceScope := m.sourceScope
    properties := m.properties, lastSeen := m.lastSeen, depth := position
    viaEdgeKind := ofHop edgeKinds, parentNodeId := ofHop nodeIds, viaEdgeId := ofHop edgeIds
    viaEdgeSource := edge.map GraphEdge.source, viaEdgeLastSeen := edge.bind GraphEdge.lastSeen }

def buildPathNodes (nodeIds : List Nat) (edgeKinds : List String) (edgeIds : List Nat)
    (byId : Nat → Option GraphNode) (edgesById : Nat → Option GraphEdge) :
    Except PathError (List TopologyNode) :=
  nodeIds.zipIdx.mapM fun (id, position) =>
    match byId id with
    | none => .error (.keyError id)
    | some m => .ok (buildPathNode nodeIds edgeKinds edgeIds edgesById m position)

/-- The rows of `_PATH_NODES_SQL` by their id. -/
def pathNodesSql (g : Graph) (tenantId : Nat) (nodeIds : List Nat) (id : Nat) : Option GraphNode :=
  g.nodes.find? fun n => n.tenantId = tenantId && n.id ∈ nodeIds && n.id = id

/-- The rows of `_PATH_EDGES_SQL` by their id. -/
def pathEdgesSql (g : Graph) (tenantId : Nat) (edgeIds : List Nat) (id : Nat) : Option GraphEdge :=
  g.edges.find? fun e => e.tenantId = tenantId && e.id ∈ edgeIds && e.id = id

def resolveEndpointId (g : Graph) (tenantId : Nat) (name : String) (kind : Option String)
    (raiseOnMissing : Bool) : Except PathError (Option Nat) :=
  match resolveNode g tenantId name kind with
  | .ok node => .ok (some node.id)
  | .error (.notFound name kind) =>
    if raiseOnMissing then .error (.resolve (.notFound name kind)) else .ok none
  | .error e => .error (.resolve e)

/-- The arguments of the verb. -/
structure PathRequest where
  tenantId : Nat
  fromName : String
  toName : String
  fromKind : Option String
  toKind : Option String
  maxHops : Nat
  includeStale : Bool
  direction : PathDirection
  relationClass : Option String
  missingEndpointRaises : Bool

def PathRequest.params (r : PathRequest) (fromId toId : Nat)
    (classes : Option (List String) × Option (List String)) : PathParams :=
  ⟨r.tenantId, fromId, toId, r.maxHops, r.includeStale, r.direction, classes.1, classes.2⟩

def findPath (g : Graph) (r : PathRequest) : Except PathError (Option TopologyPath) := do
  match relationClassKindFilter r.relationClass with
  | none => .error (.resolve (.relationClass (r.relationClass.getD "")))
  | some classes =>
    let fromId ← resolveEndpointId g r.tenantId r.fromName r.fromKind r.missingEndpointRaises
    let toId ← resolveEndpointId g r.tenantId r.toName r.toKind r.missingEndpointRaises
    match fromId, toId with
    | some fromId, some toId =>
      match pathSql g (r.params fromId toId classes) with
      | none => .ok none
      | some winner =>
        let nodes ← buildPathNodes winner.nodeIds winner.edgeKinds winner.edgeIds
          (pathNodesSql g r.tenantId winner.nodeIds) (pathEdgesSql g r.tenantId winner.edgeIds)
        .ok (some ⟨nodes, winner.hops, r.direction⟩)
    | _, _ => .ok none

/-! ## Allowed walks -/

/-- The edge is walked from one id to another. -/
def PathParams.Leads (q : PathParams) (e : GraphEdge) (p i : Nat) : Prop :=
  q.direction ≠ .reverse ∧ e.fromNodeId = p ∧ e.toNodeId = i ∨
    q.direction ≠ .forward ∧ e.toNodeId = p ∧ e.fromNodeId = i

/-- A walk may enter the node: not a legacy row, and live if it must be, or an endpoint. -/
def PathParams.Enters (q : PathParams) (n : GraphNode) : Prop :=
  n.tenantId = q.tenantId ∧ isLegacyScope n.sourceScope = false ∧
    (q.includeStale ∨ n.lastSeen.isSome ∨ n.id = q.fromId ∨ n.id = q.toId)

/-- A hop over an allowed edge to an allowed node. -/
def Hop (g : Graph) (q : PathParams) (p i : Nat) : Prop :=
  (∃ e ∈ g.edges, q.allows e ∧ q.Leads e p i) ∧ ∃ n ∈ g.nodes, n.id = i ∧ q.Enters n

/-- The path's nodes with the edges between them, from one node to the other. -/
structure Route (g : Graph) (q : PathParams) (a b : GraphNode) (path : TopologyPath) : Prop where
  length : path.nodes.length = path.totalHops + 1
  first : path.nodes[0]? = some (topologyNode a a.properties 0 none)
  last : path.nodes[path.totalHops]?.map (·.id) = some b.id
  hop : ∀ i < path.totalHops, ∃ p e n, path.nodes[i]?.map (·.id) = some p ∧
    e ∈ g.edges ∧ q.allows e ∧ n ∈ g.nodes ∧ q.Leads e p n.id ∧ q.Enters n ∧
    path.nodes[i + 1]? = some (topologyNode n n.properties (i + 1) (some (p, e)))
  distinct : (path.nodes.map (·.id)).Nodup

/-- Both endpoints as the resolver gives them. -/
structure Endpoints (g : Graph) (q : PathParams) (a b : GraphNode) : Prop where
  from_mem : a ∈ g.nodes
  from_id : a.id = q.fromId
  from_tenant : a.tenantId = q.tenantId
  from_scope : isLegacyScope a.sourceScope = false
  to_mem : b ∈ g.nodes
  to_id : b.id = q.toId
  to_tenant : b.tenantId = q.tenantId
  to_scope : isLegacyScope b.sourceScope = false

section Rows
variable {g : Graph} {q : PathParams} {a b : GraphNode}

theorem mem_biEdge {p i : Nat} {e : GraphEdge} :
    (p, i, e) ∈ biEdge g q ↔ e ∈ g.edges ∧ q.allows e ∧ q.Leads e p i := by
  unfold biEdge PathParams.Leads
  rw [List.mem_append]
  constructor
  · rintro (h | h)
    · split at h
      · rename_i hdir
        obtain ⟨e, he, heq⟩ := List.mem_map.1 h
        cases heq
        obtain ⟨hmem, hallows⟩ := List.mem_filter.1 he
        exact ⟨hmem, hallows, .inl ⟨hdir, rfl, rfl⟩⟩
      · cases h
    · split at h
      · rename_i hdir
        obtain ⟨e, he, heq⟩ := List.mem_map.1 h
        cases heq
        obtain ⟨hmem, hallows⟩ := List.mem_filter.1 he
        exact ⟨hmem, hallows, .inr ⟨hdir, rfl, rfl⟩⟩
      · cases h
  · rintro ⟨hmem, hallows, ⟨hdir, rfl, rfl⟩ | ⟨hdir, rfl, rfl⟩⟩
    · rw [if_pos hdir]
      exact .inl (List.mem_map.2 ⟨e, List.mem_filter.2 ⟨hmem, hallows⟩, rfl⟩)
    · rw [if_pos hdir]
      exact .inr (List.mem_map.2 ⟨e, List.mem_filter.2 ⟨hmem, hallows⟩, rfl⟩)

theorem Endpoints.isTarget_iff (h : Endpoints g q a b) {id : Nat} :
    isTarget g q id = true ↔ id = q.toId := by
  simp only [isTarget, target, List.any_eq_true, List.mem_filter, Bool.and_eq_true,
    decide_eq_true_eq]
  constructor
  · rintro ⟨n, ⟨-, hid, -⟩, rfl⟩
    exact hid
  · rintro rfl
    exact ⟨b, ⟨h.to_mem, h.to_id, h.to_tenant⟩, h.to_id⟩

theorem Endpoints.onto_iff (h : Endpoints g q a b) {n : GraphNode} : onto g q n = true ↔
    n.tenantId = q.tenantId ∧ isLegacyScope n.sourceScope = false ∧
      (q.includeStale ∨ n.lastSeen.isSome ∨ n.id = q.toId) := by
  simp [onto, h.isTarget_iff, and_assoc, or_assoc]

/-! ## What a row is -/

/-- The hops of a row, each with its edge and the node it leads to. -/
structure Trail (g : Graph) (q : PathParams) (k : Nat) (w : PathRow)
    (trail : List (GraphEdge × GraphNode)) : Prop where
  length : trail.length = k
  hops : w.hops = k
  bound : k ≤ q.maxHops
  nodeIds : w.nodeIds = q.fromId :: trail.map (·.2.id)
  edgeKinds : w.edgeKinds = trail.map (·.1.kind)
  edgeIds : w.edgeIds = trail.map (·.1.id)
  last : w.nodeIds[k]? = some w.nodeId
  hop : ∀ (i : Nat) (x : GraphEdge × GraphNode), trail[i]? = some x →
    x.1 ∈ g.edges ∧ q.allows x.1 ∧ x.2 ∈ g.nodes ∧ q.Enters x.2 ∧
    ∃ p, w.nodeIds[i]? = some p ∧ q.Leads x.1 p x.2.id
  distinct : w.isCycle = false → w.nodeIds.Nodup

variable {w : PathRow}

theorem mem_extendPath (h : Endpoints g q a b) {w' : PathRow} : w' ∈ extendPath g q w ↔
    w.isCycle = false ∧ w.nodeId ≠ q.toId ∧ w.hops < q.maxHops ∧
      ∃ e n, e ∈ g.edges ∧ q.allows e ∧ q.Leads e w.nodeId n.id ∧ n ∈ g.nodes ∧
        onto g q n = true ∧ w' = ⟨n.id, w.hops + 1, w.nodeIds ++ [n.id], w.edgeKinds ++ [e.kind],
          w.edgeIds ++ [e.id], decide (n.id ∈ w.nodeIds)⟩ := by
  unfold extendPath
  split
  · rename_i hstop
    simp only [Bool.or_eq_true, h.isTarget_iff, decide_eq_true_eq] at hstop
    constructor
    · exact nofun
    · rintro ⟨hcycle, htarget, hhops, -⟩
      rcases hstop with (hstop | hstop) | hstop
      · rw [hcycle] at hstop
        cases hstop
      · exact absurd hstop htarget
      · exact absurd hhops (Nat.not_lt.2 hstop)
  · rename_i hgo
    simp only [Bool.or_eq_true, h.isTarget_iff, decide_eq_true_eq, not_or, Bool.not_eq_true,
      Nat.not_le] at hgo
    obtain ⟨⟨hcycle, htarget⟩, hhops⟩ := hgo
    simp only [List.mem_flatMap, List.mem_filter, List.mem_map, decide_eq_true_eq,
      Bool.and_eq_true]
    constructor
    · rintro ⟨⟨p, i, e⟩, ⟨hedge, rfl⟩, n, ⟨hn, rfl, honto⟩, rfl⟩
      obtain ⟨he, hallows, hleads⟩ := mem_biEdge.1 hedge
      exact ⟨hcycle, htarget, hhops, e, n, he, hallows, hleads, hn, honto, rfl⟩
    · rintro ⟨-, -, -, e, n, he, hallows, hleads, hn, honto, rfl⟩
      exact ⟨(w.nodeId, n.id, e), ⟨mem_biEdge.2 ⟨he, hallows, hleads⟩, rfl⟩, n,
        ⟨hn, rfl, honto⟩, rfl⟩

variable {k : Nat}

theorem exists_trail (h : Endpoints g q a b) (hw : w ∈ pathRows g q k) :
    ∃ trail, Trail g q k w trail := by
  induction k generalizing w with
  | zero =>
    obtain ⟨n, hn, rfl⟩ := List.mem_map.1 hw
    have hid : n.id = q.fromId := by
      have := (List.mem_filter.1 hn).2
      simp only [Bool.and_eq_true, decide_eq_true_eq] at this
      exact this.1
    exact ⟨[], rfl, rfl, Nat.zero_le _, by simp [hid], rfl, rfl, rfl, nofun, by simp⟩
  | succ k ih =>
    obtain ⟨u, hu, hw⟩ := List.mem_flatMap.1 hw
    obtain ⟨trail, ht⟩ := ih hu
    obtain ⟨hcycle, -, hhops, e, n, he, hallows, hleads, hn, honto, rfl⟩ := (mem_extendPath h).1 hw
    have hlength : u.nodeIds.length = k + 1 := by simp [ht.nodeIds, ht.length]
    obtain ⟨htenant, hscope, hlive⟩ := h.onto_iff.1 honto
    refine ⟨trail ++ [(e, n)], by simp [ht.length], by simp [ht.hops], ?_, by simp [ht.nodeIds],
      by simp [ht.edgeKinds], by simp [ht.edgeIds], ?_, ?_, ?_⟩
    · rw [ht.hops] at hhops
      exact hhops
    · simp [← hlength]
    · intro i x hx
      -- a hop of the walk so far, or the new one
      rcases Nat.lt_or_ge i trail.length with hi | hi
      · rw [List.getElem?_append_left hi] at hx
        obtain ⟨he', hallows', hn', henters, p, hp, hleads'⟩ := ht.hop i x hx
        have hcount := ht.length
        exact ⟨he', hallows', hn', henters, p,
          by rw [List.getElem?_append_left (by omega)]; exact hp, hleads'⟩
      · have hk : i = trail.length := by
          have := (List.getElem?_eq_some_iff.1 hx).1
          simp only [List.length_append, List.length_singleton] at this
          omega
        subst hk
        rw [List.getElem?_concat_length] at hx
        cases hx
        refine ⟨he, hallows, hn, ⟨htenant, hscope, ?_⟩, u.nodeId, ?_, hleads⟩
        · rcases hlive with hlive | hlive | hlive
          · exact .inl hlive
          · exact .inr (.inl hlive)
          · exact .inr (.inr (.inr hlive))
        · rw [ht.length, List.getElem?_append_left (by omega)]
          exact ht.last
    · intro hnew
      exact List.nodup_append'.2 ⟨ht.distinct hcycle, List.nodup_singleton _,
        by simpa using hnew⟩

/-- A row's nodes are reached by an allowed walk, each in as many hops as it has before it. -/
theorem Trail.walk {trail : List (GraphEdge × GraphNode)} (h : Trail g q k w trail) {j i : Nat}
    (hi : w.nodeIds[j]? = some i) : WalkLen (Hop g q) q.fromId j i := by
  induction j generalizing i with
  | zero =>
    rw [h.nodeIds] at hi
    exact (Option.some.inj hi).symm
  | succ j ih =>
    rw [h.nodeIds, List.getElem?_cons_succ, List.getElem?_map] at hi
    obtain ⟨x, hx, rfl⟩ := Option.map_eq_some_iff.1 hi
    obtain ⟨he, hallows, hn, henters, p, hp, hleads⟩ := h.hop j x hx
    exact ⟨p, ih hp, ⟨x.1, he, hallows, hleads⟩, x.2, hn, rfl, henters⟩

theorem exists_pathRow (h : Endpoints g q a b) (hk : Dist (Hop g q) q.fromId k q.toId)
    (hmax : k ≤ q.maxHops) {j i : Nat} (hj : j ≤ k) (hi : Dist (Hop g q) q.fromId j i) :
    ∃ w ∈ pathRows g q j, w.isCycle = false ∧ w.nodeId = i := by
  induction j generalizing i with
  | zero =>
    obtain rfl := dist_zero.1 hi
    exact ⟨⟨a.id, 0, [a.id], [], [], false⟩, List.mem_map.2 ⟨a, List.mem_filter.2
      ⟨h.from_mem, by simp [h.from_id, h.from_tenant]⟩, rfl⟩, rfl, h.from_id⟩
  | succ j ih =>
    obtain ⟨⟨p, hp, ⟨e, he, hallows, hleads⟩, n, hn, rfl, henters⟩, -⟩ := dist_succ_iff.1 hi
    obtain ⟨w, hw, hcycle, rfl⟩ := ih (Nat.le_of_succ_le hj) hp
    obtain ⟨trail, ht⟩ := exists_trail h hw
    -- the row has not met the second endpoint, and the node is not the first one
    have htarget : w.nodeId ≠ q.toId := fun heq =>
      absurd (Dist.unique (heq ▸ hp) hk) (Nat.ne_of_lt hj)
    have hfrom : n.id ≠ q.fromId := fun heq =>
      absurd (Dist.unique hi (dist_zero.2 heq)) (Nat.succ_ne_zero j)
    have honto : onto g q n = true := by
      obtain ⟨htenant, hscope, hlive⟩ := henters
      refine h.onto_iff.2 ⟨htenant, hscope, ?_⟩
      rcases hlive with hlive | hlive | hlive | hlive
      · exact .inl hlive
      · exact .inr (.inl hlive)
      · exact absurd hlive hfrom
      · exact .inr (.inr hlive)
    have hnew : n.id ∉ w.nodeIds := by
      intro hmem
      obtain ⟨l, hl⟩ := List.mem_iff_getElem?.1 hmem
      have hlt : l < w.nodeIds.length := (List.getElem?_eq_some_iff.1 hl).1
      rw [ht.nodeIds, List.length_cons, List.length_map, ht.length] at hlt
      exact hi.2 l hlt (ht.walk hl)
    refine ⟨_, List.mem_flatMap.2 ⟨w, hw, (mem_extendPath h).2 ⟨hcycle, htarget, ?_, e, n, he,
      hallows, hleads, hn, honto, rfl⟩⟩, decide_eq_false hnew, rfl⟩
    rw [ht.hops]
    omega

theorem pathSql_some (h : Endpoints g q a b) (hw : pathSql g q = some w) :
    w.hops ≤ q.maxHops ∧ w.isCycle = false ∧ w.nodeId = q.toId ∧
      Dist (Hop g q) q.fromId w.hops q.toId ∧ ∃ trail, Trail g q w.hops w trail := by
  unfold pathSql at hw
  generalize hrows : ((List.range (q.maxHops + 1)).flatMap (pathRows g q)).filter
    (fun w => w.nodeId = q.toId && !w.isCycle) = rows at hw
  have hmem : ∀ u, u ∈ rows ↔ (∃ k ≤ q.maxHops, u ∈ pathRows g q k) ∧ u.nodeId = q.toId ∧
      u.isCycle = false := by
    intro u
    rw [← hrows, List.mem_filter, List.mem_flatMap]
    simp only [List.mem_range, Nat.lt_succ_iff, Bool.and_eq_true, decide_eq_true_eq,
      Bool.not_eq_true']
  obtain ⟨more, hlist⟩ := List.head?_eq_some_iff.1 hw
  have hleast : ∀ u ∈ rows, w.hops ≤ u.hops := by
    intro u hu
    have hpairwise := orderBy_pairwise PathRow.hops rows
    rw [hlist, List.pairwise_cons] at hpairwise
    have hu' := (mem_orderBy PathRow.hops).2 hu
    rw [hlist] at hu'
    rcases List.mem_cons.1 hu' with rfl | hu'
    · exact Nat.le_refl _
    · exact hpairwise.1 u hu'
  have hw' : w ∈ rows := (mem_orderBy PathRow.hops).1 (hlist ▸ List.mem_cons_self)
  obtain ⟨⟨k, hk, hrow⟩, hto, hcycle⟩ := (hmem w).1 hw'
  obtain ⟨trail, ht⟩ := exists_trail h hrow
  have hhops := ht.hops
  subst hhops
  refine ⟨hk, hcycle, hto, ?_, trail, ht⟩
  have hwalk := ht.walk ht.last
  rw [hto] at hwalk
  obtain ⟨j, hj, hdist⟩ := exists_dist hwalk
  obtain ⟨u, hu, hucycle, huto⟩ := exists_pathRow h hdist (hj.trans hk) (Nat.le_refl j) hdist
  obtain ⟨_, hut⟩ := exists_trail h hu
  have hle := hleast u ((hmem u).2 ⟨⟨j, hj.trans hk, hu⟩, huto, hucycle⟩)
  rw [hut.hops] at hle
  exact Nat.le_antisymm hj hle ▸ hdist

theorem pathSql_none (h : Endpoints g q a b) (hw : pathSql g q = none) (hk : k ≤ q.maxHops) :
    ¬WalkLen (Hop g q) q.fromId k q.toId := by
  intro hwalk
  obtain ⟨j, hj, hdist⟩ := exists_dist hwalk
  obtain ⟨u, hu, hcycle, hto⟩ := exists_pathRow h hdist (hj.trans hk) (Nat.le_refl j) hdist
  have hempty := List.head?_eq_none_iff.1 hw
  have hmem : u ∈ orderBy PathRow.hops (((List.range (q.maxHops + 1)).flatMap
      (pathRows g q)).filter fun w => w.nodeId = q.toId && !w.isCycle) := by
    refine (mem_orderBy PathRow.hops).2 (List.mem_filter.2 ⟨List.mem_flatMap.2
      ⟨j, List.mem_range.2 (Nat.lt_succ_of_le (hj.trans hk)), hu⟩, by simp [hto, hcycle]⟩)
  rw [hempty] at hmem
  cases hmem

/-! ## The nodes of the path -/

/-- Of rows with distinct ids, the one of an id is found. -/
theorem find?_of_id {ρ : Type} {rows : List ρ} {key : ρ → Nat} (hkey : (rows.map key).Nodup) {r : ρ}
    (hr : r ∈ rows) {p : ρ → Bool} (hp : p r = true) :
    rows.find? (fun x => p x && key x = key r) = some r := by
  cases hfind : rows.find? fun x => p x && key x = key r with
  | none => exact absurd (by simp [hp]) (List.find?_eq_none.1 hfind r hr)
  | some x =>
    have hid := List.find?_some hfind
    simp only [Bool.and_eq_true, decide_eq_true_eq] at hid
    rw [List.inj_on_of_nodup_map hkey (List.mem_of_find?_eq_some hfind) hr hid.2]

theorem mapM_positions {α β ε : Type} {f : α → Except ε β} {xs : List α}
    (h : ∀ x ∈ xs, ∃ y, f x = .ok y) : ∃ ys : List β, xs.mapM f = .ok ys ∧
      ys.length = xs.length ∧ ∀ (i : Nat) (x : α), xs[i]? = some x → ∃ y, ys[i]? = some y ∧ f x = .ok y := by
  induction xs with
  | nil => exact ⟨[], rfl, rfl, nofun⟩
  | cons x xs ih =>
    obtain ⟨y, hy⟩ := h x List.mem_cons_self
    obtain ⟨ys, hys, hlength, hall⟩ := ih fun z hz => h z (List.mem_cons_of_mem x hz)
    refine ⟨y :: ys, ?_, by simp [hlength], ?_⟩
    · rw [List.mapM_cons, hy, hys]
      rfl
    · intro i z hz
      cases i with
      | zero =>
        cases hz
        exact ⟨y, rfl, hy⟩
      | succ i => exact hall i z hz

theorem route_of_trail (h : Endpoints g q a b) {trail : List (GraphEdge × GraphNode)}
    (ht : Trail g q w.hops w trail) (hcycle : w.isCycle = false) (hto : w.nodeId = q.toId) :
    ∃ nodes, buildPathNodes w.nodeIds w.edgeKinds w.edgeIds
        (pathNodesSql g q.tenantId w.nodeIds) (pathEdgesSql g q.tenantId w.edgeIds) = .ok nodes ∧
      Route g q a b ⟨nodes, w.hops, q.direction⟩ := by
  have hknown : ∀ id ∈ w.nodeIds, ∃ n ∈ g.nodes, n.id = id ∧ n.tenantId = q.tenantId := by
    intro id hid
    rw [ht.nodeIds] at hid
    rcases List.mem_cons.1 hid with rfl | hid
    · exact ⟨a, h.from_mem, h.from_id, h.from_tenant⟩
    · obtain ⟨x, hx, rfl⟩ := List.mem_map.1 hid
      obtain ⟨i, hi⟩ := List.mem_iff_getElem?.1 hx
      obtain ⟨-, -, hn, henters, -⟩ := ht.hop i x hi
      exact ⟨x.2, hn, rfl, henters.1⟩
  have hfetch : ∀ n ∈ g.nodes, n.tenantId = q.tenantId → n.id ∈ w.nodeIds →
      pathNodesSql g q.tenantId w.nodeIds n.id = some n := fun n hn htenant hmem =>
    find?_of_id g.node_ids hn (by simp [htenant, hmem])
  -- every node of the walk is fetched again by its id, so none is missing when the path is built
  have hfetched : ∀ x ∈ w.nodeIds.zipIdx, ∃ n ∈ g.nodes, n.id = x.1 ∧
      pathNodesSql g q.tenantId w.nodeIds x.1 = some n := by
    intro x hx
    have hid := List.mem_of_getElem? (List.mem_zipIdx_iff_getElem?.1 hx)
    obtain ⟨n, hn, hname, htenant⟩ := hknown x.1 hid
    rw [← hname] at hid ⊢
    exact ⟨n, hn, rfl, hfetch n hn htenant hid⟩
  obtain ⟨nodes, hnodes, hlength, hall⟩ := mapM_positions
    (f := fun x : Nat × Nat => match pathNodesSql g q.tenantId w.nodeIds x.1 with
      | none => Except.error (PathError.keyError x.1)
      | some m => .ok (buildPathNode w.nodeIds w.edgeKinds w.edgeIds
          (pathEdgesSql g q.tenantId w.edgeIds) m x.2))
    (fun x hx => by
      obtain ⟨n, -, -, hn⟩ := hfetched x hx
      rw [hn]
      exact ⟨_, rfl⟩)
  have hat : ∀ i n, n ∈ g.nodes → n.tenantId = q.tenantId → w.nodeIds[i]? = some n.id →
      nodes[i]? = some (buildPathNode w.nodeIds w.edgeKinds w.edgeIds
        (pathEdgesSql g q.tenantId w.edgeIds) n i) := by
    intro i n hn htenant hi
    obtain ⟨y, hy, hbuilt⟩ := hall i (n.id, i) (by simp [List.getElem?_zipIdx, hi])
    simp only [hfetch n hn htenant (List.mem_of_getElem? hi), Except.ok.injEq] at hbuilt
    rw [hy, hbuilt]
  rw [List.length_zipIdx] at hlength
  have hids : nodes.map (·.id) = w.nodeIds := by
    apply List.ext_getElem?
    intro i
    rw [List.getElem?_map]
    cases hi : w.nodeIds[i]? with
    | none =>
      rw [List.getElem?_eq_none_iff] at hi
      rw [List.getElem?_eq_none (hlength ▸ hi)]
      rfl
    | some id =>
      obtain ⟨n, hn, rfl, htenant⟩ := hknown id (List.mem_of_getElem? hi)
      rw [hat i n hn htenant hi]
      rfl
  have hfirst : w.nodeIds[0]? = some a.id := by rw [ht.nodeIds, h.from_id]; rfl
  refine ⟨nodes, hnodes, ?_, ?_, ?_, ?_, ?_⟩
  · rw [hlength, ht.nodeIds, List.length_cons, List.length_map, ht.length]
  · rw [hat 0 a h.from_mem h.from_tenant hfirst]
    rfl
  · rw [← List.getElem?_map, hids, ht.last, hto, h.to_id]
  -- a hop: its edge and the node behind it, as the trail has them at this position
  · intro i (hi : i < w.hops)
    rw [← ht.length] at hi
    obtain ⟨⟨e, n⟩, hx⟩ : ∃ x, trail[i]? = some x := ⟨trail[i], List.getElem?_eq_getElem hi⟩
    obtain ⟨he, hallows, hn, henters, p, hp, hleads⟩ := ht.hop i _ hx
    have hnext : w.nodeIds[i + 1]? = some n.id := by
      rw [ht.nodeIds, List.getElem?_cons_succ, List.getElem?_map, hx]
      rfl
    -- the lists of kinds and ids are as long as the trail and in its order
    have hkind : w.edgeKinds[i]? = some e.kind := by
      rw [ht.edgeKinds, List.getElem?_map, hx]
      rfl
    have hedge : w.edgeIds[i]? = some e.id := by
      rw [ht.edgeIds, List.getElem?_map, hx]
      rfl
    have htenant : e.tenantId = q.tenantId := by
      simp only [PathParams.allows, Bool.and_eq_true, decide_eq_true_eq] at hallows
      exact hallows.1.1.1.1
    have hfetched : pathEdgesSql g q.tenantId w.edgeIds e.id = some e :=
      find?_of_id g.edge_ids he (by simp [htenant, List.mem_of_getElem? hedge])
    refine ⟨p, e, n, by rw [← List.getElem?_map, hids, hp], he, hallows, hn, hleads, henters, ?_⟩
    rw [hat (i + 1) n hn henters.1 hnext]
    simp [buildPathNode, topologyNode, hp, hkind, hedge, hfetched]
  · rw [hids]
    exact ht.distinct hcycle

def PathParams.swapped (q : PathParams) : PathParams := { q with fromId := q.toId, toId := q.fromId }

theorem walk_swapped (h : Endpoints g q a b) (hdir : q.direction = .undirected)
    (hwalk : WalkLen (Hop g q) q.fromId k q.toId) :
    WalkLen (Hop g q.swapped) q.toId k q.fromId := by
  let good (i : Nat) : Prop := ∃ n ∈ g.nodes, n.id = i ∧ q.Enters n
  let both (p i : Nat) : Prop := (∃ e ∈ g.edges, q.allows e ∧ q.Leads e p i) ∧ good p ∧ good i
  have hstart : good q.fromId :=
    ⟨a, h.from_mem, h.from_id, h.from_tenant, h.from_scope, .inr (.inr (.inl h.from_id))⟩
  have hboth : ∀ k i, WalkLen (Hop g q) q.fromId k i → good i ∧ WalkLen both q.fromId k i := by
    intro k
    induction k with
    | zero =>
      rintro i rfl
      exact ⟨hstart, rfl⟩
    | succ k ih =>
      rintro i ⟨p, hp, hedge, hgood⟩
      exact ⟨hgood, p, (ih p hp).2, hedge, (ih p hp).1, hgood⟩
  have hback := (hboth k _ hwalk).2.backwards (by
    rintro p i ⟨⟨e, he, hallows, hleads⟩, hp, hi⟩
    refine ⟨⟨e, he, hallows, ?_⟩, hi, hp⟩
    rcases hleads with ⟨-, hfrom, hto⟩ | ⟨-, hto, hfrom⟩
    · exact .inr ⟨by rw [hdir]; exact nofun, hto, hfrom⟩
    · exact .inl ⟨by rw [hdir]; exact nofun, hfrom, hto⟩)
  refine hback.mono ?_
  rintro p i ⟨hedge, -, n, hn, hid, htenant, hscope, hlive⟩
  refine ⟨hedge, n, hn, hid, htenant, hscope, ?_⟩
  rcases hlive with hlive | hlive | hlive | hlive
  · exact .inl hlive
  · exact .inr (.inl hlive)
  · exact .inr (.inr (.inr hlive))
  · exact .inr (.inr (.inl hlive))

end Rows

/-! ## Shortest paths -/

/-- The answer for two resolved endpoints. -/
theorem findPath_answer {g : Graph} {r : PathRequest} {a b : GraphNode}
    {classes : Option (List String) × Option (List String)}
    (ha : resolveNode g r.tenantId r.fromName r.fromKind = .ok a)
    (hb : resolveNode g r.tenantId r.toName r.toKind = .ok b)
    (hclass : relationClassKindFilter r.relationClass = some classes) :
    Endpoints g (r.params a.id b.id classes) a b ∧ ∃ answer, findPath g r = .ok answer ∧
      (answer.isSome ↔
        ∃ k ≤ r.maxHops, WalkLen (Hop g (r.params a.id b.id classes)) a.id k b.id) ∧
      ∀ path, answer = some path → path.direction = r.direction ∧
        Dist (Hop g (r.params a.id b.id classes)) a.id path.totalHops b.id ∧
          Route g (r.params a.id b.id classes) a b path := by
  obtain ⟨hamem, hatenant, hascope⟩ := resolveNode_ok ha
  obtain ⟨hbmem, hbtenant, hbscope⟩ := resolveNode_ok hb
  have hends : Endpoints g (r.params a.id b.id classes) a b :=
    ⟨hamem, rfl, hatenant, hascope, hbmem, rfl, hbtenant, hbscope⟩
  refine ⟨hends, ?_⟩
  have hfind : findPath g r = (match pathSql g (r.params a.id b.id classes) with
      | none => .ok none
      | some winner => do
        let nodes ← buildPathNodes winner.nodeIds winner.edgeKinds winner.edgeIds
          (pathNodesSql g r.tenantId winner.nodeIds) (pathEdgesSql g r.tenantId winner.edgeIds)
        .ok (some ⟨nodes, winner.hops, r.direction⟩)) := by
    simp only [findPath, hclass, resolveEndpointId, ha, hb]
    rfl
  -- no winner: no walk within the bound; else the winner's trail is the route
  rw [hfind]
  cases hsql : pathSql g (r.params a.id b.id classes) with
  | none =>
    refine ⟨none, rfl, ?_, nofun⟩
    simp only [Option.isSome_none, Bool.false_eq_true, false_iff, not_exists, not_and]
    exact fun k hk => pathSql_none hends hsql hk
  | some w =>
    obtain ⟨hbound, hcycle, hto, hdist, trail, ht⟩ := pathSql_some hends hsql
    obtain ⟨nodes, hnodes, hroute⟩ := route_of_trail hends ht hcycle hto
    refine ⟨some ⟨nodes, w.hops, r.direction⟩, ?_, ?_, ?_⟩
    · have hnodes : buildPathNodes w.nodeIds w.edgeKinds w.edgeIds
          (pathNodesSql g r.tenantId w.nodeIds) (pathEdgesSql g r.tenantId w.edgeIds) =
          .ok nodes := hnodes
      simp only [hnodes]
      rfl
    · exact ⟨fun _ => ⟨w.hops, hbound, hdist.1⟩, fun _ => rfl⟩
    · rintro path ⟨⟩
      exact ⟨rfl, hdist, hroute⟩

theorem find_path_correct (g : Graph) (r : PathRequest) {a b : GraphNode}
    {classes : Option (List String) × Option (List String)}
    (ha : resolveNode g r.tenantId r.fromName r.fromKind = .ok a)
    (hb : resolveNode g r.tenantId r.toName r.toKind = .ok b)
    (hclass : relationClassKindFilter r.relationClass = some classes) :
    ∃ answer, findPath g r = .ok answer ∧
      (answer.isSome ↔
        ∃ k ≤ r.maxHops, WalkLen (Hop g (r.params a.id b.id classes)) a.id k b.id) ∧
      (∀ path, answer = some path → path.direction = r.direction ∧
        Dist (Hop g (r.params a.id b.id classes)) a.id path.totalHops b.id ∧
          Route g (r.params a.id b.id classes) a b path) ∧
      (r.direction = .undirected → ∃ back,
        findPath g { r with fromName := r.toName, fromKind := r.toKind
                            toName := r.fromName, toKind := r.fromKind } = .ok back ∧
          (answer.isSome ↔ back.isSome)) := by
  obtain ⟨hends, answer, hfind, hiff, hroute⟩ := findPath_answer ha hb hclass
  refine ⟨answer, hfind, hiff, hroute, ?_⟩
  intro hdir
  obtain ⟨hends', back, hback, hiff', -⟩ := findPath_answer (g := g)
    (r := { r with fromName := r.toName, fromKind := r.toKind
                   toName := r.fromName, toKind := r.fromKind }) hb ha hclass
  refine ⟨back, hback, ?_⟩
  rw [hiff, hiff']
  constructor
  · rintro ⟨k, hk, hwalk⟩
    exact ⟨k, hk, walk_swapped hends hdir hwalk⟩
  · rintro ⟨k, hk, hwalk⟩
    exact ⟨k, hk, walk_swapped hends' hdir hwalk⟩

/-- A host and the guest that runs on it. -/
def guestOnHost : Graph where
  nodes := [⟨1, 7, "vm", "guest", "auto", none, [], none⟩, ⟨2, 7, "host", "esx", "auto", none, [], none⟩]
  edges := [⟨3, 7, 1, 2, "runs-on", "auto", [], none⟩]
  node_ids := by decide
  edge_ids := by decide

/-- From the host to its guest, against the edge. -/
theorem host_to_guest : ∃ answer,
    findPath guestOnHost ⟨7, "esx", "guest", none, none, 3, true, .undirected, none, false⟩ =
      .ok answer :=
  (find_path_correct guestOnHost
    ⟨7, "esx", "guest", none, none, 3, true, .undirected, none, false⟩ rfl rfl rfl).imp
    fun _ h => h.1

end Meho.Topology
