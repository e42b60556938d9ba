import Meho.Lib.Levels
import Meho.Topology.Closure

/- The full closure level by level.

A row of the recursive statement is a path from the anchor. The row that is kept of a
node is one of its shortest paths, so the closure up to a depth is the levels of the
graph around the anchor one after the other, each in the order of names
(`traversalSql_eq_levels`), and each node with the smallest edge from the level before. -/
namespace Meho.Topology
open Meho.Lib

section Levels
variable {κ : Type} [LinearOrder κ] (db : Database κ) (g : Graph) (q : WalkParams)

/-! ## Steps -/

/-- A step leads from one id to another. -/
def StepTo (p i : Nat) : Prop := ∃ x ∈ stepsFrom g q p, x.2.id = i

variable {g q}

variable {p : Nat} {e : GraphEdge} {n : GraphNode}

theorem mem_stepsFrom : (e, n) ∈ stepsFrom g q p ↔
    e ∈ g.edges ∧ q.parentEnd e = p ∧ n ∈ g.nodes ∧ n.id = q.childEnd e ∧ q.admits e n := by
  simp only [stepsFrom, List.mem_flatMap, List.mem_filter, List.mem_map, decide_eq_true_eq,
    Bool.and_eq_true, Prod.mk.injEq]
  constructor
  · rintro ⟨e', ⟨he, hp⟩, n', ⟨hn, hid, hadmits⟩, rfl, rfl⟩
    exact ⟨he, hp, hn, hid, hadmits⟩
  · rintro ⟨he, hp, hn, hid, hadmits⟩
    exact ⟨e, ⟨he, hp⟩, n, ⟨hn, hid, hadmits⟩, rfl, rfl⟩

theorem mem_reached {frontier visited : List Nat} :
    (p, e, n) ∈ reached g q frontier visited ↔
      p ∈ frontier ∧ n.id ∉ visited ∧ (e, n) ∈ stepsFrom g q p := by
  rw [mem_stepsFrom]
  simp only [reached, List.mem_flatMap, List.mem_filter, List.mem_map, decide_eq_true_eq,
    Bool.and_eq_true, Prod.mk.injEq]
  constructor
  · rintro ⟨e', ⟨he, hp⟩, n', ⟨hn, ⟨hid, hvisited⟩, hadmits⟩, rfl, rfl, rfl⟩
    exact ⟨hp, hvisited, he, rfl, hn, hid, hadmits⟩
  · rintro ⟨hp, hvisited, he, rfl, hn, hid, hadmits⟩
    exact ⟨e, ⟨he, hp⟩, n, ⟨hn, ⟨hid, hvisited⟩, hadmits⟩, rfl, rfl, rfl⟩

theorem Graph.node_unique {a b : GraphNode} (ha : a ∈ g.nodes) (hb : b ∈ g.nodes)
    (h : a.id = b.id) : a = b := List.inj_on_of_nodup_map g.node_ids ha hb h

theorem Graph.edge_unique {a b : GraphEdge} (ha : a ∈ g.edges) (hb : b ∈ g.edges)
    (h : a.id = b.id) : a = b := List.inj_on_of_nodup_map g.edge_ids ha hb h

/-! ## The edge that a node is shown with -/

variable (g q) in
/-- `via` leads to the node from the level before, by the smallest parent and edge. -/
structure BestVia (root : GraphNode) (k : Nat) (n : GraphNode) (p : Nat) (e : GraphEdge) : Prop where
  parent : Dist (StepTo g q) root.id k p
  step : (e, n) ∈ stepsFrom g q p
  least : ∀ p' e', Dist (StepTo g q) root.id k p' → (e', n) ∈ stepsFrom g q p' →
    viaKey (some (p, e)) ≤ viaKey (some (p', e'))

variable (g q) in
/-- The node is at distance `k`, and `via` is what it is shown with. -/
def Shown (root : GraphNode) : Nat → GraphNode → Option (Nat × GraphEdge) → Prop
  | 0, n, via => n = root ∧ via = none
  | k + 1, n, via => Dist (StepTo g q) root.id (k + 1) n.id ∧
      ∃ p e, via = some (p, e) ∧ BestVia g q root k n p e

theorem viaKey_inj {p' : Nat} {e' : GraphEdge} (h : viaKey (some (p, e)) = viaKey (some (p', e'))) :
    p = p' ∧ e.id = e'.id := by
  obtain ⟨hp, he⟩ := Prod.mk.inj (toLex.injective h)
  exact ⟨Option.some.inj hp, Option.some.inj he⟩

variable {k : Nat}

theorem BestVia.unique {root : GraphNode} {p' : Nat} {e' : GraphEdge} (h : BestVia g q root k n p e)
    (h' : BestVia g q root k n p' e') : (p, e) = (p', e') := by
  have hkey := le_antisymm (h.least p' e' h'.parent h'.step) (h'.least p e h.parent h.step)
  obtain ⟨rfl, hid⟩ := viaKey_inj hkey
  rw [Graph.edge_unique (mem_stepsFrom.mp h.step).1 (mem_stepsFrom.mp h'.step).1 hid]

section
variable {root : GraphNode} {via : Option (Nat × GraphEdge)} (h : Shown g q root k n via)
include h

theorem Shown.unique {via' : Option (Nat × GraphEdge)} (h' : Shown g q root k n via') :
    via = via' := by
  cases k with
  | zero => rw [h.2, h'.2]
  | succ k =>
    obtain ⟨-, p, e, rfl, hbest⟩ := h
    obtain ⟨-, p', e', rfl, hbest'⟩ := h'
    rw [hbest.unique hbest']

theorem Shown.dist : Dist (StepTo g q) root.id k n.id := by
  cases k with
  | zero => exact dist_zero.mpr (congrArg GraphNode.id h.1)
  | succ k => exact h.1

end

/-! ## The recursive statement -/

/-- A kept row's last node was reached in as many steps as the row has, and so were the
nodes before it, in fewer. -/
structure RowReaches (root : GraphNode) (k : Nat) (w : WalkRow) : Prop where
  depth : w.depth = k
  node : WalkLen (StepTo g q) root.id k w.node.id
  path : ∀ i ∈ w.path, ∃ j ≤ k, WalkLen (StepTo g q) root.id j i
  mem : w.node ∈ g.nodes
  via : match k with
    | 0 => w.node.id = root.id ∧ w.via = none
    | k + 1 => ∃ p e, w.via = some (p, e) ∧ (e, w.node) ∈ stepsFrom g q p ∧
        WalkLen (StepTo g q) root.id k p

variable {w : WalkRow}

section
variable {root : GraphNode}

theorem rowReaches (h : w ∈ walkRows g q root.id k) : RowReaches (g := g) (q := q) root k w := by
  induction k generalizing w with
  | zero =>
    obtain ⟨n, hn, rfl⟩ := List.mem_map.mp h
    obtain ⟨hmem, hroot⟩ := List.mem_filter.mp hn
    have hid : n.id = root.id := (by simpa using hroot : n.id = root.id ∧ _).1
    refine ⟨rfl, hid, fun i hi => ?_, hmem, hid, rfl⟩
    rw [List.mem_singleton.mp hi, hid]
    exact ⟨0, Nat.le_refl 0, rfl⟩
  | succ k ih =>
    obtain ⟨u, hu, hw⟩ := List.mem_flatMap.mp h
    have hprev := ih hu
    unfold extendRow at hw
    split at hw
    · cases hw
    · obtain ⟨⟨e, n⟩, hstep, rfl⟩ := List.mem_map.mp hw
      have hwalk : WalkLen (StepTo g q) root.id (k + 1) n.id := ⟨u.node.id, hprev.node, (e, n), hstep, rfl⟩
      refine ⟨congrArg (· + 1) hprev.depth, hwalk, fun i hi => ?_, (mem_stepsFrom.mp hstep).2.2.1,
        u.node.id, e, rfl, hstep, hprev.node⟩
      obtain hi | hi := List.mem_append.mp hi
      · obtain ⟨j, hj, hreach⟩ := hprev.path i hi
        exact ⟨j, Nat.le_succ_of_le hj, hreach⟩
      · rw [List.mem_singleton.mp hi]
        exact ⟨k + 1, Nat.le_refl _, hwalk⟩

theorem exists_node (hroot : root ∈ g.nodes) {i : Nat} (h : WalkLen (StepTo g q) root.id k i) :
    ∃ n ∈ g.nodes, n.id = i := by
  cases k with
  | zero => exact ⟨root, hroot, h.symm⟩
  | succ k =>
    obtain ⟨p, -, ⟨e, n⟩, hstep, hid⟩ := h
    exact ⟨n, (mem_stepsFrom.mp hstep).2.2.1, hid⟩

theorem extend_walkRow (hw : w ∈ walkRows g q root.id k) (hcycle : w.isCycle = false)
    (hstep : (e, n) ∈ stepsFrom g q w.node.id) (hdist : Dist (StepTo g q) root.id (k + 1) n.id) :
    ∃ w' ∈ walkRows g q root.id (k + 1), w'.isCycle = false ∧ w'.node = n ∧
      w'.via = some (w.node.id, e) := by
  have hnew : n.id ∉ w.path := by
    intro hmem
    obtain ⟨j, hj, hwalk⟩ := (rowReaches hw).path n.id hmem
    exact hdist.2 j (Nat.lt_succ_of_le hj) hwalk
  refine ⟨⟨n, w.depth + 1, some (w.node.id, e), w.path ++ [n.id], decide (n.id ∈ w.path)⟩, ?_,
    decide_eq_false hnew, rfl, rfl⟩
  refine List.mem_flatMap.mpr ⟨w, hw, ?_⟩
  rw [extendRow, if_neg (by simp [hcycle])]
  exact List.mem_map.mpr ⟨(e, n), hstep, rfl⟩

theorem exists_walkRow (hroot : root ∈ g.nodes) (htenant : root.tenantId = q.tenantId) {i : Nat}
    (hdist : Dist (StepTo g q) root.id k i) :
    ∃ w ∈ walkRows g q root.id k, w.isCycle = false ∧ w.node.id = i := by
  induction k generalizing i with
  | zero =>
    obtain rfl := dist_zero.mp hdist
    refine ⟨⟨root, 0, none, [root.id], false⟩, ?_, rfl, rfl⟩
    exact List.mem_map.mpr ⟨root, List.mem_filter.mpr ⟨hroot, by simp [htenant]⟩, rfl⟩
  | succ k ih =>
    obtain ⟨⟨p, hp, ⟨e, n⟩, hstep, rfl⟩, -⟩ := dist_succ_iff.mp hdist
    obtain ⟨w, hw, hcycle, rfl⟩ := ih hp
    obtain ⟨w', hw', hcycle', rfl, -⟩ := extend_walkRow hw hcycle hstep hdist
    exact ⟨w', hw', hcycle', rfl⟩

end

theorem key_le {u : WalkRow} (hid : u.node.id = w.node.id) (h : WalkRow.key db w ≤ WalkRow.key db u) :
    w.depth < u.depth ∨ w.depth = u.depth ∧ (db.collate w.node.name < db.collate u.node.name ∨
      db.collate w.node.name = db.collate u.node.name ∧ viaKey w.via ≤ viaKey u.via) := by
  unfold WalkRow.key at h
  rw [Prod.Lex.toLex_le_toLex, Prod.Lex.toLex_le_toLex, Prod.Lex.toLex_le_toLex, hid] at h
  exact h.elim (fun hlt => absurd hlt (lt_irrefl _)) And.right

section Traversal
variable {root : GraphNode} (hroot : root ∈ g.nodes) (htenant : root.tenantId = q.tenantId)

variable (g q root) in
/-- The rows that the statement keeps one of for each node. -/
def acyclicRows (depth : Nat) : List WalkRow :=
  ((List.range (depth + 1)).flatMap (walkRows g q root.id)).filter (!·.isCycle)

variable {depth : Nat}

theorem mem_acyclicRows {w : WalkRow} : w ∈ acyclicRows g q root depth ↔
    (∃ k ≤ depth, w ∈ walkRows g q root.id k) ∧ w.isCycle = false := by
  rw [acyclicRows, List.mem_filter, List.mem_flatMap]
  constructor
  · rintro ⟨⟨k, hk, hw⟩, hcycle⟩
    exact ⟨⟨k, Nat.le_of_lt_succ (List.mem_range.mp hk), hw⟩, by simpa using hcycle⟩
  · rintro ⟨⟨k, hk, hw⟩, hcycle⟩
    exact ⟨⟨k, List.mem_range.mpr (Nat.lt_succ_of_le hk), hw⟩, by simp [hcycle]⟩

include hroot htenant

theorem shown_of_kept {w : WalkRow}
    (h : w ∈ distinctOn (·.node.id) (orderBy (WalkRow.key db) (acyclicRows g q root depth))) :
    w.depth ≤ depth ∧ Shown g q root w.depth w.node w.via := by
  have hmem := (mem_orderBy _).mp (mem_of_mem_distinctOn h)
  obtain ⟨⟨k, hk, hw⟩, hcycle⟩ := mem_acyclicRows.mp hmem
  have hreach := rowReaches hw
  -- no row of the node comes before this one
  have hleast : ∀ j ≤ depth, ∀ u ∈ walkRows g q root.id j, u.isCycle = false →
      u.node.id = w.node.id → WalkRow.key db w ≤ WalkRow.key db u := fun j hj u hu hcycle' hid =>
    le_of_mem_distinctOn h (mem_acyclicRows.mpr ⟨⟨j, hj, hu⟩, hcycle'⟩) hid
  have hdist : Dist (StepTo g q) root.id k w.node.id := by
    obtain ⟨j, hj, hdist⟩ := exists_dist hreach.node
    obtain ⟨u, hu, hucycle, huid⟩ := exists_walkRow hroot htenant hdist
    have hle := hleast j (Nat.le_trans hj hk) u hu hucycle huid
    have hdepth := (rowReaches hu).depth
    have hkj : k ≤ j := by
      rw [← hreach.depth, ← hdepth]
      obtain hlt | ⟨heq, -⟩ := key_le db huid hle
      · exact Nat.le_of_lt hlt
      · exact Nat.le_of_eq heq
    exact Nat.le_antisymm hj hkj ▸ hdist
  rw [hreach.depth]
  refine ⟨hk, ?_⟩
  cases k with
  | zero =>
    obtain ⟨hid, hvia⟩ := hreach.via
    exact ⟨Graph.node_unique hreach.mem hroot hid, hvia⟩
  | succ k =>
    obtain ⟨p, e, hvia, hstep, hwalk⟩ := hreach.via
    refine ⟨hdist, p, e, hvia, hdist.prev hwalk ⟨(e, w.node), hstep, rfl⟩, hstep, ?_⟩
    intro p' e' hp' hstep'
    obtain ⟨u, hu, hucycle, rfl⟩ := exists_walkRow hroot htenant hp'
    obtain ⟨u', hu', hcycle', hnode, hvia'⟩ := extend_walkRow hu hucycle hstep' hdist
    have hle := hleast (k + 1) hk u' hu' hcycle' (congrArg GraphNode.id hnode)
    rw [← hvia, ← hvia']
    obtain hlt | ⟨-, hname⟩ := key_le db (congrArg GraphNode.id hnode) hle
    · rw [hreach.depth, (rowReaches hu').depth] at hlt
      exact absurd hlt (Nat.lt_irrefl _)
    · rw [hnode] at hname
      exact hname.elim (fun hlt => absurd hlt (lt_irrefl _)) And.right

/-- The closure holds each node up to the depth as it is shown. -/
theorem mem_traversalSql {t : TopologyNode} : t ∈ traversalSql db g q root.id depth ↔
    ∃ k ≤ depth, ∃ n via, n ∈ g.nodes ∧ Shown g q root k n via ∧
      t = topologyNode n n.properties k via := by
  have hunfold : traversalSql db g q root.id depth = orderBy (closureKey db)
      ((distinctOn (·.node.id) (orderBy (WalkRow.key db) (acyclicRows g q root depth))).map rowToNode) :=
    rfl
  rw [hunfold, mem_orderBy, List.mem_map]
  constructor
  · rintro ⟨w, hw, rfl⟩
    obtain ⟨hdepth, hshown⟩ := shown_of_kept db hroot htenant hw
    have hmem := (mem_orderBy _).mp (mem_of_mem_distinctOn hw)
    obtain ⟨⟨k, -, hwalk⟩, -⟩ := mem_acyclicRows.mp hmem
    exact ⟨w.depth, hdepth, w.node, w.via, (rowReaches hwalk).mem, hshown, rfl⟩
  · rintro ⟨k, hk, n, via, hn, hshown, rfl⟩
    obtain ⟨w, hw, hcycle, hid⟩ := exists_walkRow hroot htenant hshown.dist
    have hrow : w ∈ orderBy (WalkRow.key db) (acyclicRows g q root depth) :=
      (mem_orderBy _).mpr (mem_acyclicRows.mpr ⟨⟨k, hk, hw⟩, hcycle⟩)
    obtain ⟨x, hx, hxid⟩ := exists_mem_distinctOn (f := fun w : WalkRow => w.node.id) hrow
    obtain ⟨-, hxshown⟩ := shown_of_kept db hroot htenant hx
    have hxrow := (mem_orderBy _).mp (mem_of_mem_distinctOn hx)
    obtain ⟨⟨j, -, hxwalk⟩, -⟩ := mem_acyclicRows.mp hxrow
    have hnode : x.node = n := Graph.node_unique (rowReaches hxwalk).mem hn (hxid.trans hid)
    rw [hnode] at hxshown
    have hdepth : x.depth = k := Dist.unique hxshown.dist hshown.dist
    rw [hdepth] at hxshown
    refine ⟨x, hx, ?_⟩
    rw [rowToNode, hnode, hdepth, hxshown.unique hshown]

omit hroot htenant in
theorem traversalSql_strictly (depth : Nat) :
    (traversalSql db g q root.id depth).Pairwise fun a b => closureKey db a < closureKey db b := by
  refine orderBy_strictly ?_
  have hids : ((distinctOn (·.node.id) (orderBy (WalkRow.key db) (acyclicRows g q root depth))).map
      (·.node.id)).Nodup := distinctOn_nodup _
  rw [List.nodup_iff_pairwise_ne, List.pairwise_map] at hids
  rw [List.nodup_iff_pairwise_ne, List.map_map, List.pairwise_map]
  exact hids.imp fun hne heq => hne
    (Prod.mk.inj (toLex.injective (Prod.mk.inj (toLex.injective heq)).2)).2

end Traversal

/-! ## The levels -/

variable (g q) in
/-- The ids up to level `k`, and the nodes of level `k` in the order of their names. -/
def levels (root : GraphNode) : Nat → List Nat × List GraphNode
  | 0 => ([root.id], [root])
  | k + 1 =>
    let next := orderBy (fun n : GraphNode => toLex (db.collate n.name, n.id))
      (distinctOn GraphNode.id
        ((reached g q ((levels root k).2.map GraphNode.id) (levels root k).1).map (·.2.2)))
    ((levels root k).1 ++ next.map GraphNode.id, next)

variable (g q) in
/-- The edge that a node of a level was reached by. -/
def levelVia (root : GraphNode) : Nat → Nat → Option (Nat × GraphEdge)
  | 0, _ => none
  | k + 1, id =>
    viaOf (reached g q ((levels db g q root k).2.map GraphNode.id) (levels db g q root k).1) id

theorem frontier_iff {root : GraphNode} (hroot : root ∈ g.nodes) {nodes : List GraphNode}
    (hlevel : ∀ n, n ∈ nodes ↔ n ∈ g.nodes ∧ Dist (StepTo g q) root.id k n.id) (p : Nat) :
    p ∈ nodes.map GraphNode.id ↔ Dist (StepTo g q) root.id k p := by
  rw [List.mem_map]
  constructor
  · rintro ⟨n, hn, rfl⟩
    exact ((hlevel n).mp hn).2
  · intro hp
    obtain ⟨n, hn, rfl⟩ := exists_node hroot hp.1
    exact ⟨n, (hlevel n).mpr ⟨hn, hp⟩, rfl⟩

theorem levels_spec {root : GraphNode} (hroot : root ∈ g.nodes) (k : Nat) :
    (∀ i, i ∈ (levels db g q root k).1 ↔ ∃ j ≤ k, Dist (StepTo g q) root.id j i) ∧
      ∀ n, n ∈ (levels db g q root k).2 ↔ n ∈ g.nodes ∧ Dist (StepTo g q) root.id k n.id := by
  induction k with
  | zero =>
    constructor
    · intro i
      rw [levels, List.mem_singleton]
      exact ⟨fun h => ⟨0, Nat.le_refl 0, dist_zero.mpr h⟩,
        fun ⟨j, hj, h⟩ => dist_zero.mp (Nat.le_zero.mp hj ▸ h)⟩
    · intro n
      rw [levels, List.mem_singleton, dist_zero]
      exact ⟨fun h => by rw [h]; exact ⟨hroot, rfl⟩, fun ⟨hn, hid⟩ => Graph.node_unique hn hroot hid⟩
  | succ k ih =>
    obtain ⟨hvisited, hlevel⟩ := ih
    have hfrontier := frontier_iff hroot hlevel
    -- the next level: one step beyond this one and not seen before
    have hnext : ∀ n, n ∈ (levels db g q root (k + 1)).2 ↔
        n ∈ g.nodes ∧ Dist (StepTo g q) root.id (k + 1) n.id := by
      intro n
      rw [levels, mem_orderBy]
      constructor
      · intro hmem
        obtain ⟨⟨p, e, n⟩, hx, rfl⟩ := List.mem_map.mp (mem_of_mem_distinctOn hmem)
        obtain ⟨hp, hnew, hstep⟩ := mem_reached.mp hx
        refine ⟨(mem_stepsFrom.mp hstep).2.2.1, dist_succ_iff.mpr ⟨?_, fun j hj hdist => ?_⟩⟩
        · exact ⟨p, (hfrontier p).mp hp, (e, n), hstep, rfl⟩
        · exact hnew ((hvisited n.id).mpr ⟨j, hj, hdist⟩)
      · rintro ⟨hn, hdist⟩
        obtain ⟨⟨p, hp, ⟨e, n'⟩, hstep, hid⟩, hnone⟩ := dist_succ_iff.mp hdist
        obtain rfl := Graph.node_unique (mem_stepsFrom.mp hstep).2.2.1 hn hid
        have hx : (p, e, n') ∈ reached g q ((levels db g q root k).2.map GraphNode.id)
            (levels db g q root k).1 := by
          refine mem_reached.mpr ⟨(hfrontier p).mpr hp, fun hmem => ?_, hstep⟩
          obtain ⟨j, hj, hshort⟩ := (hvisited n'.id).mp hmem
          exact hnone j hj hshort
        -- of the steps into one node only the first is kept, which is the same node
        obtain ⟨y, hy, hyid⟩ := exists_mem_distinctOn (f := GraphNode.id)
          (List.mem_map_of_mem (f := (·.2.2)) hx)
        obtain ⟨z, hz, rfl⟩ := List.mem_map.mp (mem_of_mem_distinctOn hy)
        obtain ⟨pz, ez, nz⟩ := z
        have hnz := (mem_stepsFrom.mp (mem_reached.mp hz).2.2).2.2.1
        rwa [← Graph.node_unique hnz hn hyid]
    refine ⟨fun i => ?_, hnext⟩
    rw [levels, List.mem_append, hvisited]
    show (_ ∨ i ∈ (levels db g q root (k + 1)).2.map GraphNode.id) ↔ _
    rw [List.mem_map]
    constructor
    · rintro (⟨j, hj, hdist⟩ | ⟨n, hn, rfl⟩)
      · exact ⟨j, Nat.le_succ_of_le hj, hdist⟩
      · exact ⟨k + 1, Nat.le_refl _, ((hnext n).mp hn).2⟩
    · rintro ⟨j, hj, hdist⟩
      obtain hlt | rfl := Nat.lt_or_eq_of_le hj
      · exact .inl ⟨j, Nat.le_of_lt_succ hlt, hdist⟩
      · obtain ⟨n, hn, rfl⟩ := exists_node hroot hdist.1
        exact .inr ⟨n, (hnext n).mpr ⟨hn, hdist⟩, rfl⟩

/-- The edge of a node in a hop: one of its rows, the smallest of them. -/
theorem viaOf_spec {rows : List Reached} {x : Reached} (hx : x ∈ rows) :
    ∃ y ∈ rows, y.2.2.id = x.2.2.id ∧ viaOf rows x.2.2.id = some (y.1, y.2.1) ∧
      ∀ z ∈ rows, z.2.2.id = x.2.2.id → viaKey (some (y.1, y.2.1)) ≤ viaKey (some (z.1, z.2.1)) := by
  let key (x : Reached) : Nat ×ₗ WithTop Nat ×ₗ WithTop Nat := toLex (x.2.2.id, viaKey (some (x.1, x.2.1)))
  let first := distinctOn (fun x : Reached => x.2.2.id) (orderBy key rows)
  obtain ⟨w, hw, hwid⟩ := exists_mem_distinctOn (f := fun x : Reached => x.2.2.id)
    ((mem_orderBy key).mpr hx)
  cases hfind : first.find? (·.2.2.id = x.2.2.id) with
  | none => exact absurd (decide_eq_true hwid) (List.find?_eq_none.mp hfind w hw)
  | some y =>
    have hy := List.mem_of_find?_eq_some hfind
    have hyid : y.2.2.id = x.2.2.id := by
      have hfound := List.find?_some hfind
      exact of_decide_eq_true hfound
    refine ⟨y, (mem_orderBy key).mp (mem_of_mem_distinctOn hy), hyid, ?_, fun z hz hzid => ?_⟩
    · exact congrArg (Option.map fun x : Reached => (x.1, x.2.1)) hfind
    · have hle : key y ≤ key z := le_of_mem_distinctOn hy hz (hzid.trans hyid.symm)
      obtain hlt | ⟨-, hle⟩ := Prod.Lex.toLex_le_toLex.mp hle
      · exact absurd (hzid.trans hyid.symm) (Nat.ne_of_gt hlt)
      · exact hle

/-- A level shows each node with the smallest edge from the level before. -/
theorem levelVia_shown {root : GraphNode} (hroot : root ∈ g.nodes)
    (hn : n ∈ (levels db g q root k).2) : Shown g q root k n (levelVia db g q root k n.id) := by
  obtain ⟨hmem, hdist⟩ := ((levels_spec db hroot k).2 n).mp hn
  cases k with
  | zero => exact ⟨Graph.node_unique hmem hroot (dist_zero.mp hdist), rfl⟩
  | succ k =>
    obtain ⟨hvisited, hlevel⟩ := levels_spec (q := q) db hroot k
    obtain ⟨⟨p, hp, ⟨e, n'⟩, hstep, hid⟩, hnone⟩ := dist_succ_iff.mp hdist
    obtain rfl := Graph.node_unique (mem_stepsFrom.mp hstep).2.2.1 hmem hid
    have hreached : ∀ p e, Dist (StepTo g q) root.id k p → (e, n') ∈ stepsFrom g q p →
        (p, e, n') ∈ reached g q ((levels db g q root k).2.map GraphNode.id) (levels db g q root k).1 := by
      intro p e hp hstep
      refine mem_reached.mpr ⟨(frontier_iff hroot hlevel p).mpr hp, fun hin => ?_, hstep⟩
      obtain ⟨j, hj, hshort⟩ := (hvisited n'.id).mp hin
      exact hnone j hj hshort
    obtain ⟨⟨py, ey, ny⟩, hy, hyid, hvia, hleast⟩ := viaOf_spec (hreached p e hp hstep)
    obtain ⟨hpy, -, hystep⟩ := mem_reached.mp hy
    obtain rfl := Graph.node_unique (mem_stepsFrom.mp hystep).2.2.1 hmem hyid
    refine ⟨hdist, py, ey, hvia, (frontier_iff hroot hlevel py).mp hpy, hystep, fun p' e' hp' hstep' => ?_⟩
    exact hleast (p', e', ny) (hreached p' e' hp' hstep') rfl

variable (q) in
/-- A level is in the strict order of names and ids. -/
theorem levels_strictly (root : GraphNode) (k : Nat) : (levels db g q root k).2.Pairwise fun a b =>
    toLex (db.collate a.name, a.id) < toLex (db.collate b.name, b.id) := by
  cases k with
  | zero => exact List.pairwise_singleton _ _
  | succ k =>
    have hids : ∀ rows : List GraphNode, ((distinctOn GraphNode.id rows).map fun n : GraphNode =>
        toLex (db.collate n.name, n.id)).Nodup := by
      intro rows
      have hnodup := distinctOn_nodup (f := GraphNode.id) rows
      rw [List.nodup_iff_pairwise_ne, List.pairwise_map] at hnodup ⊢
      exact hnodup.imp fun hne heq => hne (Prod.mk.inj (toLex.injective heq)).2
    exact orderBy_strictly (hids _)

variable (g q) in
/-- The entries of a level, in the order of names. -/
def closureLevel (root : GraphNode) (k : Nat) : List TopologyNode :=
  (levels db g q root k).2.map fun n => topologyNode n n.properties k (levelVia db g q root k n.id)

/-- The closure is its levels one after the other. -/
theorem traversalSql_eq_levels {root : GraphNode} (hroot : root ∈ g.nodes)
    (htenant : root.tenantId = q.tenantId) (depth : Nat) :
    traversalSql db g q root.id depth = (List.range (depth + 1)).flatMap (closureLevel db g q root) := by
  refine eq_of_strictly (traversalSql_strictly db depth) ?_ fun t => ?_
  · rw [List.pairwise_flatMap]
    constructor
    · intro k _
      rw [closureLevel, List.pairwise_map]
      refine (levels_strictly db q root k).imp fun {a b} hlt => ?_
      exact Prod.Lex.toLex_lt_toLex.mpr (.inr ⟨rfl, hlt⟩)
    · refine List.pairwise_lt_range.imp fun {j k} hjk a ha b hb => ?_
      obtain ⟨m, -, rfl⟩ := List.mem_map.mp ha
      obtain ⟨n, -, rfl⟩ := List.mem_map.mp hb
      exact Prod.Lex.toLex_lt_toLex.mpr (.inl hjk)
  · rw [mem_traversalSql db hroot htenant, List.mem_flatMap]
    constructor
    · rintro ⟨k, hk, n, via, hn, hshown, rfl⟩
      have hlevel : n ∈ (levels db g q root k).2 := ((levels_spec db hroot k).2 n).mpr ⟨hn, hshown.dist⟩
      refine ⟨k, List.mem_range.mpr (Nat.lt_succ_of_le hk), List.mem_map.mpr ⟨n, hlevel, ?_⟩⟩
      rw [hshown.unique (levelVia_shown db hroot hlevel)]
    · rintro ⟨k, hk, ht⟩
      obtain ⟨n, hn, rfl⟩ := List.mem_map.mp ht
      exact ⟨k, Nat.le_of_lt_succ (List.mem_range.mp hk), n, _, (((levels_spec db hroot k).2 n).mp hn).1,
        levelVia_shown db hroot hn, rfl⟩

end Levels

end Meho.Topology

