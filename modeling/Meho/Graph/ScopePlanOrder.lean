import Meho.Graph.ScopePlan

/- The plan does not depend on the order in which rows and discoveries are given.

What the database promises about the rows it holds (`OldGraph`) makes every sort of the
planner a sort by a key that tells the rows apart, and every dictionary one whose pairs
have distinct keys. -/
namespace Meho.Graph
open Meho.Lib Meho.Lib.Assoc

variable {V : Type} {str : Nat → String}

/-- The tables before the cut-over: primary keys, the unique index on `(tenant_id, kind, name)`
and the one on an edge's ends and kind, and edges that join rows of their tenant. -/
structure OldGraph (oldNodes : List OldNode) (oldEdges : List OldEdge) : Prop where
  node_ids : (oldNodes.map OldNode.id).Nodup
  natural_key : (oldNodes.map fun n => (n.tenantId, n.kind, n.name)).Nodup
  edge_ids : (oldEdges.map OldEdge.id).Nodup
  edge_key : (oldEdges.map fun e => (e.tenantId, e.ends)).Nodup
  ends : ∀ e ∈ oldEdges,
    (∃ n ∈ oldNodes, n.id = e.fromNodeId ∧ n.tenantId = e.tenantId) ∧
      ∃ n ∈ oldNodes, n.id = e.toNodeId ∧ n.tenantId = e.tenantId

/-- One discovery for each target of a tenant. -/
def EachAskedOnce (discoveries : List (TargetDiscovery V)) : Prop :=
  (discoveries.map fun d => (d.tenantId, d.targetId)).Nodup

/-- Of rows that `(tenant, f)` tells apart, `f` tells those of one tenant apart. -/
theorem nodup_of_tenant {α κ : Type} {tenant : α → Nat} {f : α → κ} {rows : List α}
    (h : (rows.map fun r => (tenant r, f r)).Nodup) (t : Nat) :
    ((rows.filter (tenant · = t)).map f).Nodup := by
  have hfilter : ((rows.filter (tenant · = t)).map fun r => (tenant r, f r)).Nodup :=
    (List.filter_sublist.map _).nodup h
  have hrows : (rows.filter (tenant · = t)).Nodup := List.Nodup.of_map _ hfilter
  refine List.Nodup.map_on ?_ hrows
  intro a ha b hb hab
  have hta : tenant a = t := of_decide_eq_true (List.mem_filter.mp ha).2
  have htb : tenant b = t := of_decide_eq_true (List.mem_filter.mp hb).2
  exact List.inj_on_of_nodup_map hfilter ha hb (Prod.ext (hta.trans htb.symm) hab)

namespace OldGraph
variable {oldNodes : List OldNode} {oldEdges : List OldEdge} (h : OldGraph oldNodes oldEdges)
include h

theorem names (t : Nat) :
    ((oldNodes.filter (·.tenantId = t)).map fun n => toLex (n.kind, n.name)).Nodup := by
  have hpairs := (nodup_of_tenant h.natural_key t).map toLex.injective
  rwa [List.map_map] at hpairs

theorem ids (t : Nat) : ((oldNodes.filter (·.tenantId = t)).map OldNode.id).Nodup :=
  (List.filter_sublist.map _).nodup h.node_ids

theorem edgeIds (t : Nat) : ((oldEdges.filter (·.tenantId = t)).map OldEdge.id).Nodup :=
  (List.filter_sublist.map _).nodup h.edge_ids

theorem edgeEnds (t : Nat) : ((oldEdges.filter (·.tenantId = t)).map OldEdge.ends).Nodup :=
  nodup_of_tenant h.edge_key t

theorem perm {oldNodes' : List OldNode} {oldEdges' : List OldEdge} (hn : oldNodes.Perm oldNodes')
    (he : oldEdges.Perm oldEdges') : OldGraph oldNodes' oldEdges' where
  node_ids := (hn.map _).nodup_iff.mp h.node_ids
  natural_key := (hn.map _).nodup_iff.mp h.natural_key
  edge_ids := (he.map _).nodup_iff.mp h.edge_ids
  edge_key := (he.map _).nodup_iff.mp h.edge_key
  ends e hmem := by
    obtain ⟨⟨n, hnmem, hfrom⟩, n', hnmem', hto⟩ := h.ends e (he.mem_iff.mpr hmem)
    exact ⟨⟨n, hn.mem_iff.mp hnmem, hfrom⟩, n', hn.mem_iff.mp hnmem', hto⟩

end OldGraph

theorem EachAskedOnce.targets {discoveries : List (TargetDiscovery V)}
    (h : EachAskedOnce discoveries) (t : Nat) :
    ((discoveries.filter (·.tenantId = t)).map (·.targetId)).Nodup := nodup_of_tenant h t

/-! ## One tenant -/

theorem tenantStage_perm (t : Nat) {ds ds' : List (TargetDiscovery V)} (h : ds.Perm ds')
    (hds : (ds.map (·.targetId)).Nodup) : tenantStage str t ds = tenantStage str t ds' := by
  rw [tenantStage, tenantStage, orderBy_perm h hds]

theorem planNodes_perm (t : Nat) {rows rows' : List OldNode} (stage : TenantStage V)
    (newId : Nat → Nat) (used : Nat) (h : rows.Perm rows')
    (hrows : (rows.map fun n => toLex (n.kind, n.name)).Nodup) :
    planNodes t rows stage newId used = planNodes t rows' stage newId used := by
  rw [planNodes, planNodes, orderBy_perm h hrows]

/-- The pass asks the old edges by their ends only. -/
theorem planDiscoveredEdges_congr (t : Nat) (finalId : List (NodeKey × Nat))
    {old old' : List (EdgeEnds × OldEdge)} (newId : Nat → Nat) (stage : TenantStage V) (used : Nat)
    (h : ∀ ends, get old ends = get old' ends) :
    planDiscoveredEdges t finalId old newId stage used =
      planDiscoveredEdges t finalId old' newId stage used := by
  have hstep : planDiscoveredEdge t finalId old newId =
      planDiscoveredEdge (V := V) t finalId old' newId := by
    funext pass d e
    simp only [planDiscoveredEdge, h]
  rw [planDiscoveredEdges, planDiscoveredEdges, hstep]

theorem planLeftoverEdges_perm (t : Nat) {edges edges' : List OldEdge} (nodes : List PlannedNode)
    (adopted : List Nat) (h : edges.Perm edges') (hedges : (edges.map OldEdge.id).Nodup) :
    planLeftoverEdges t edges nodes adopted = planLeftoverEdges t edges' nodes adopted := by
  rw [planLeftoverEdges, planLeftoverEdges, orderBy_perm h hedges]

theorem planTenant_perm (t : Nat) {rows rows' : List OldNode} {edges edges' : List OldEdge}
    {ds ds' : List (TargetDiscovery V)} (newId : Nat → Nat) (used : Nat)
    (hrows : rows.Perm rows') (hedges : edges.Perm edges') (hds : ds.Perm ds')
    (hnames : (rows.map fun n => toLex (n.kind, n.name)).Nodup)
    (hids : (edges.map OldEdge.id).Nodup) (hends : (edges.map OldEdge.ends).Nodup)
    (htargets : (ds.map (·.targetId)).Nodup) :
    planTenant str t rows edges ds newId used = planTenant str t rows' edges' ds' newId used := by
  have hold : ∀ ends, get (ofPairs (edges.map fun e => (e.ends, e))) ends =
      get (ofPairs (edges'.map fun e => (e.ends, e))) ends := by
    refine get_ofPairs_perm (hedges.map _) ?_
    rw [List.map_map]
    exact hends
  simp only [planTenant, tenantStage_perm t hds htargets, planNodes_perm t _ newId used hrows hnames,
    planDiscoveredEdges_congr t _ newId _ _ hold, planLeftoverEdges_perm t _ _ hedges hids]

section
variable {oldNodes oldNodes' : List OldNode} {oldEdges oldEdges' : List OldEdge}
    {discoveries discoveries' : List (TargetDiscovery V)} (newId : Nat → Nat)
    (hold : OldGraph oldNodes oldEdges) (hasked : EachAskedOnce discoveries)
    (hn : oldNodes.Perm oldNodes') (he : oldEdges.Perm oldEdges')
    (hd : discoveries.Perm discoveries')
include newId hold hasked hn he hd

theorem planTenants_perm (used : Nat) (tenants : List Nat) :
    planTenants str oldNodes oldEdges discoveries newId used tenants =
      planTenants str oldNodes' oldEdges' discoveries' newId used tenants := by
  induction tenants generalizing used with
  | nil => rfl
  | cons t tenants ih =>
    simp only [planTenants, ih]
    rw [planTenant_perm t newId used (hn.filter (·.tenantId = t)) (he.filter (·.tenantId = t))
      (hd.filter (·.tenantId = t)) (hold.names t) (hold.edgeIds t) (hold.edgeEnds t)
      (hasked.targets t)]

/-- The same rows and discoveries in any other order give the same plan. -/
theorem buildPlan_perm :
    buildPlan str oldNodes oldEdges discoveries newId =
      buildPlan str oldNodes' oldEdges' discoveries' newId := by
  have htenants : planTenantIds oldNodes discoveries = planTenantIds oldNodes' discoveries' := by
    refine orderBy_perm ((hn.map _).append (hd.map _)).dedup ?_
    rw [List.map_id']
    exact List.nodup_dedup _
  rw [buildPlan, buildPlan, htenants, planTenants_perm newId hold hasked hn he hd]

end

end Meho.Graph
