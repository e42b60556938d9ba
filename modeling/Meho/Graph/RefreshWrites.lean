import Meho.Graph.Refresh

/- What a refresh writes.

Every write of the node pass is one of three (`nodeWrite_cases`): a reported node that no
candidate answers is inserted, one that a candidate answers refreshes its row, and an
unreported row of the target is retired. The edge pass is the same over the edges between
loaded nodes (`edgeWrite_cases`). No row is written twice (`nodeBatch`, `edgeBatch`). -/
namespace Meho.Graph
open Meho.Lib.Assoc Meho.Lib.Journal

variable {V : Type} {r : Reconcile V} {g : State V}

/-! ## The node pass -/

theorem mem_candidates {n : NodeRow V} (h : n ∈ loadReconcileCandidateNodes r g) :
    n ∈ g.nodes.rows ∧ n.tenantId = r.tenantId ∧
      (n.nodeKey ∈ r.hints.nodes.map NodeHint.nodeKey ∨ ownedByTarget g.isScoped r.targetId n) := by
  unfold loadReconcileCandidateNodes at h
  split at h
  · rename_i hs
    obtain ⟨hn, hp⟩ := List.mem_filter.mp h
    obtain ⟨ht, hp⟩ := of_decide_eq_true hp
    refine ⟨hn, ht, ?_⟩
    rcases hp with hp | hp | ⟨hp, hp', -⟩
    · obtain ⟨hint, hh, heq⟩ := List.mem_map.mp hp
      exact .inl (List.mem_map.mpr ⟨hint, hh, (Prod.mk.inj heq).2⟩)
    · exact .inr (by simp [ownedByTarget, hs, hp])
    · exact .inr (by simp [ownedByTarget, hs, hp, hp'])
  · rename_i hs
    obtain ⟨hn, hp⟩ := List.mem_filter.mp h
    obtain ⟨ht, hp⟩ := of_decide_eq_true hp
    exact ⟨hn, ht, hp.imp_right fun hp => by simp [ownedByTarget, hs, hp]⟩

theorem mem_nodesByKey {e : NameKey × NodeRow V} (h : e ∈ nodesByKey r g) :
    e.2 ∈ loadReconcileCandidateNodes r g ∧ e.2.nodeKey = e.1 := by
  obtain ⟨n, hn, rfl⟩ := List.mem_map.mp (mem_of_mem_ofPairs h)
  exact ⟨hn, rfl⟩

theorem mem_discoveredNodes {e : NameKey × NodeHint V} (h : e ∈ discoveredNodes r) :
    e.2 ∈ r.hints.nodes ∧ e.2.nodeKey = e.1 := by
  obtain ⟨n, hn, rfl⟩ := List.mem_map.mp (mem_of_mem_ofPairs h)
  exact ⟨hn, rfl⟩

theorem mem_discoveredNodes_keys {k : NameKey} :
    k ∈ (discoveredNodes r).map Prod.fst ↔ k ∈ r.hints.nodes.map NodeHint.nodeKey := by
  rw [discoveredNodes, mem_keys_ofPairs, List.map_map]
  rfl

section Nodes
variable [DecidableEq V]

/-- What the refresh does with a candidate that is reported. -/
def refreshNode (r : Reconcile V) (row : NodeRow V) (hint : NodeHint V) : Write (NodeRow V) :=
  if row.source = .curated then refreshCuratedNode r row else updateExistingNode r row hint

section
variable (row : NodeRow V) (hint : NodeHint V)
include row hint

theorem refreshNode_old : (refreshNode r row hint).old = some row := by
  unfold refreshNode refreshCuratedNode updateExistingNode
  split <;> simp only <;> split <;> rfl

theorem refreshNode_new :
    (refreshNode r row hint).new = some (if row.source = .curated
      then { row with lastSeen := some r.now }
      else { row with
        properties := hint.properties, targetId := some r.targetId, lastSeen := some r.now }) := by
  unfold refreshNode refreshCuratedNode updateExistingNode
  split <;> simp only <;> split <;> rfl

theorem refreshNode_target : (refreshNode r row hint).target = row.id := by
  unfold refreshNode refreshCuratedNode updateExistingNode
  split <;> simp only <;> split <;> rfl

end

/-- The missing row of the target that the soft-delete pass retires. -/
def Missing (r : Reconcile V) (g : State V) (row : NodeRow V) : Prop :=
  row ∈ loadReconcileCandidateNodes r g ∧ row.nodeKey ∉ r.hints.nodes.map NodeHint.nodeKey ∧
    row.source = .auto ∧ ownedByTarget g.isScoped r.targetId row ∧ row.lastSeen.isSome

omit [DecidableEq V] in
theorem softDeleteMissingNode_eq_some {isScoped : Bool} {discovered : List NameKey} {key : NameKey}
    {row : NodeRow V} {w : Write (NodeRow V)}
    (h : softDeleteMissingNode r isScoped discovered key row = some w) :
    (key ∉ discovered ∧ row.source = .auto ∧ ownedByTarget isScoped r.targetId row ∧
      row.lastSeen.isSome) ∧ w = softRemoveNode row := by
  simp only [softDeleteMissingNode, Option.ite_none_left_eq_some, Option.some.injEq,
    Bool.not_eq_true', Bool.not_eq_false, Option.isNone_iff_eq_none] at h
  obtain ⟨hkey, hsource, howned, hlive, rfl⟩ := h
  refine ⟨⟨hkey, ?_, howned, Option.isSome_iff_ne_none.mpr hlive⟩, rfl⟩
  cases hs : row.source with
  | auto => rfl
  | curated => exact absurd hs hsource

theorem nodeWrite_cases {w : Write (NodeRow V)} (h : w ∈ (reconcileNodes r g).writes) :
    (∃ hint ∈ r.hints.nodes, w = .insert (insertDiscoveredNode r g.isScoped hint)) ∨
      (∃ row ∈ loadReconcileCandidateNodes r g, ∃ hint ∈ r.hints.nodes,
        hint.nodeKey = row.nodeKey ∧ w = refreshNode r row hint) ∨
      ∃ row, Missing r g row ∧ w = softRemoveNode row := by
  rcases List.mem_append.mp h with h | h
  · obtain ⟨⟨key, hint⟩, he, rfl⟩ := List.mem_map.mp h
    obtain ⟨hhint, hkey⟩ := mem_discoveredNodes he
    rcases hrow : get (nodesByKey r g) key with _ | row
    · exact .inl ⟨hint, hhint, by simp [reconcileNode, hrow]⟩
    · obtain ⟨hcand, hk⟩ := mem_nodesByKey (mem_of_get hrow)
      refine .inr (.inl ⟨row, hcand, hint, hhint, hkey.trans hk.symm, ?_⟩)
      simp [reconcileNode, hrow, refreshNode]
  · obtain ⟨⟨key, row⟩, he, h⟩ := List.mem_filterMap.mp h
    obtain ⟨hcand, hkey⟩ := mem_nodesByKey he
    obtain ⟨hmiss, hw⟩ := softDeleteMissingNode_eq_some h
    refine .inr (.inr ⟨row, ⟨hcand, ?_, hmiss.2⟩, hw⟩)
    intro hk
    exact hmiss.1 (mem_discoveredNodes_keys.mpr (hkey ▸ hk))

theorem nodeBatch (hids : (g.nodes.rows.map NodeRow.id).Nodup) :
    Batch g.nodes (reconcileNodes r g).writes where
  old := by
    intro w hw row hrow
    rcases nodeWrite_cases hw with ⟨hint, -, rfl⟩ | ⟨n, hn, hint, -, -, rfl⟩ | ⟨n, hn, rfl⟩
    · cases hrow
    · rw [refreshNode_old] at hrow
      cases hrow
      exact (mem_candidates hn).1
    · cases hrow
      exact (mem_candidates hn.1).1
  new := by
    intro w hw row hrow
    rcases nodeWrite_cases hw with ⟨hint, -, rfl⟩ | ⟨n, -, hint, -, -, rfl⟩ | ⟨n, -, rfl⟩
    · cases hrow
      rfl
    · rw [refreshNode_new] at hrow
      rw [refreshNode_target]
      cases hrow
      show NodeRow.id _ = n.id
      split <;> rfl
    · cases hrow
      rfl
  once := by
    -- the writes with their keys: one per discovered key, one per row whose key was not found
    let discovered := (discoveredNodes r).map fun e =>
      (e.1, reconcileNode r g.isScoped (nodesByKey r g) e.1 e.2)
    let missing := (nodesByKey r g).filterMap fun e =>
      (softDeleteMissingNode r g.isScoped ((discoveredNodes r).map Prod.fst) e.1 e.2).map (e.1, ·)
    have hwrites : (reconcileNodes r g).writes = (discovered ++ missing).map Prod.snd := by
      simp [reconcileNodes, softDeleteMissingNodes, discovered, missing, List.map_filterMap,
        Function.comp_def]
    rw [hwrites]
    have hmissing : ∀ e ∈ missing, ∃ row, (e.1, row) ∈ nodesByKey r g ∧ e.2.old = some row ∧
        e.1 ∉ (discoveredNodes r).map Prod.fst := by
      intro e he
      obtain ⟨⟨key, row⟩, hrow, h⟩ := List.mem_filterMap.mp he
      obtain ⟨w, hw, rfl⟩ := Option.map_eq_some_iff.mp h
      obtain ⟨hmiss, rfl⟩ := softDeleteMissingNode_eq_some hw
      exact ⟨row, hrow, rfl, hmiss.1⟩
    apply Batch.once_of_keys NodeRow.nodeKey hids
    · rw [List.map_append, List.nodup_append]
      refine ⟨?_, ?_, ?_⟩
      · show ((discoveredNodes r).map _ |>.map Prod.fst).Nodup
        rw [List.map_map]
        exact ofPairs_nodup _
      · exact (ofPairs_nodup _).sublist (map_fst_filterMap_sublist _ _)
      -- a missing row is missing because its key was not discovered
      · intro k hk k' hk' heq
        obtain ⟨e, he, rfl⟩ := List.mem_map.mp hk'
        obtain ⟨-, -, -, hnot⟩ := hmissing e he
        exact hnot (by simpa [discovered, Function.comp_def, heq] using hk)
    · intro e he row hrow
      rcases List.mem_append.mp he with he | he
      · obtain ⟨⟨key, hint⟩, -, rfl⟩ := List.mem_map.mp he
        rcases hget : get (nodesByKey r g) key with _ | n
        · simp [reconcileNode, hget, Write.old] at hrow
        · obtain ⟨hcand, hkey⟩ := mem_nodesByKey (mem_of_get hget)
          have hn : n = row := by
            have hold := refreshNode_old (r := r) n hint
            simp only [reconcileNode, hget] at hrow
            exact Option.some.inj (hold.symm.trans hrow)
          exact hn ▸ ⟨(mem_candidates hcand).1, hkey⟩
      · obtain ⟨row', hrow', hold, -⟩ := hmissing e he
        obtain rfl : row' = row := Option.some.inj (hold.symm.trans hrow)
        obtain ⟨hcand, hkey⟩ := mem_nodesByKey hrow'
        exact ⟨(mem_candidates hcand).1, hkey⟩

/-- The edge pass may use a node that is a candidate, or that is inserted. -/
theorem mem_allKeyToId {i : Nat} (h : i ∈ (reconcileNodes r g).allKeyToId.map Prod.snd) :
    (∃ n ∈ loadReconcileCandidateNodes r g, n.id = i) ∨
      ∃ hint, .insert (insertDiscoveredNode r g.isScoped hint) ∈ (reconcileNodes r g).writes ∧
        r.newNodeId hint.nodeKey = i := by
  obtain ⟨⟨key, i⟩, he, rfl⟩ := List.mem_map.mp h
  rcases List.mem_append.mp he with he | he
  · obtain ⟨⟨key', n⟩, hn, heq⟩ := List.mem_map.mp he
    cases heq
    exact .inl ⟨n, (mem_nodesByKey hn).1, rfl⟩
  · obtain ⟨⟨key', hint⟩, hd, heq⟩ := List.mem_map.mp he
    cases heq
    obtain ⟨hd, hnone⟩ := List.mem_filter.mp hd
    have hget : get (nodesByKey r g) key' = none := Option.isNone_iff_eq_none.mp hnone
    refine .inr ⟨hint, List.mem_append_left _ (List.mem_map.mpr ⟨_, hd, ?_⟩), ?_⟩
    · simp [reconcileNode, hget]
    · show r.newNodeId hint.nodeKey = r.newNodeId key'
      rw [(mem_discoveredNodes hd).2]

end Nodes

/-! ## The edge pass -/

section Edges
variable {liveKeyToId allKeyToId : List (NameKey × Nat)}

/-- An edge of the tenant between nodes that the pass may use. -/
def Loaded (r : Reconcile V) (g : State V) (allKeyToId : List (NameKey × Nat)) (row : EdgeRow V) :
    Prop :=
  row ∈ g.edges.rows ∧ row.tenantId = r.tenantId ∧
    row.fromNodeId ∈ allKeyToId.map Prod.snd ∧ row.toNodeId ∈ allKeyToId.map Prod.snd

/-- The key that an edge is found under; an end without one has none. -/
def edgeKeyOf (allKeyToId : List (NameKey × Nat)) (row : EdgeRow V) :
    Option NameKey × Option NameKey × String :=
  let idToKey := ofPairs (allKeyToId.map fun e => (e.2, e.1))
  (get idToKey row.fromNodeId, get idToKey row.toNodeId, row.kind)

theorem mem_edgesByKey {e : NameEdgeKey × EdgeRow V} (h : e ∈ loadExistingEdgesByKey r g allKeyToId) :
    Loaded r g allKeyToId e.2 ∧ edgeKeyOf allKeyToId e.2 = (some e.1.1, some e.1.2.1, e.1.2.2) := by
  obtain ⟨row, hrow, h⟩ := List.mem_filterMap.mp (mem_of_mem_ofPairs h)
  obtain ⟨hrow, hp⟩ := List.mem_filter.mp hrow
  obtain ⟨ht, hfrom⟩ := of_decide_eq_true hp
  split at h
  · rename_i fromKey toKey hf hto
    cases h
    obtain ⟨e', he', heq⟩ := List.mem_map.mp (mem_of_mem_ofPairs (mem_of_get hto))
    refine ⟨⟨hrow, ht, hfrom, List.mem_map.mpr ⟨e', he', congrArg Prod.fst heq⟩⟩, ?_⟩
    simp [edgeKeyOf, hf, hto]
  · cases h

theorem softDeleteMissingEdge_eq_some {discovered : List NameEdgeKey} {key : NameEdgeKey}
    {row : EdgeRow V} {w : Write (EdgeRow V)}
    (h : softDeleteMissingEdge discovered key row = some w) :
    (key ∉ discovered ∧ row.lastSeen.isSome) ∧ w = softRemoveEdge row := by
  simp only [softDeleteMissingEdge, Option.ite_none_left_eq_some, Option.some.injEq,
    Option.isNone_iff_eq_none] at h
  obtain ⟨hkey, hlive, rfl⟩ := h
  exact ⟨⟨hkey, Option.isSome_iff_ne_none.mpr hlive⟩, rfl⟩

variable [DecidableEq V]

/-- What the refresh does with a loaded edge that is reported. -/
def refreshEdge (r : Reconcile V) (row : EdgeRow V) (hint : EdgeHint V) : Write (EdgeRow V) :=
  if row.source = .curated then refreshCuratedEdge r row else updateExistingAutoEdge r row hint

section
variable (row : EdgeRow V) (hint : EdgeHint V)
include row hint

theorem refreshEdge_old : (refreshEdge r row hint).old = some row := by
  unfold refreshEdge refreshCuratedEdge updateExistingAutoEdge
  split <;> simp only <;> split <;> rfl

theorem refreshEdge_new :
    (refreshEdge r row hint).new = some (if row.source = .curated
      then { row with lastSeen := some r.now }
      else { row with
        properties := mergeEdgeProperties row.properties hint.properties,
        lastSeen := some r.now }) := by
  unfold refreshEdge refreshCuratedEdge updateExistingAutoEdge
  split <;> simp only <;> split <;> rfl

theorem refreshEdge_target : (refreshEdge r row hint).target = row.id := by
  unfold refreshEdge refreshCuratedEdge updateExistingAutoEdge
  split <;> simp only <;> split <;> rfl

end

theorem reconcileEdge_cases {existingByKey : List (NameEdgeKey × EdgeRow V)} {key : NameEdgeKey}
    {hint : EdgeHint V} {w : Write (EdgeRow V)}
    (h : reconcileEdge r liveKeyToId existingByKey key hint = some w) :
    (∃ fromId toId, get existingByKey key = none ∧ get liveKeyToId hint.fromKey = some fromId ∧
        get liveKeyToId hint.toKey = some toId ∧ w = .insert (insertDiscoveredEdge r hint fromId toId)) ∨
      ∃ row, get existingByKey key = some row ∧ w = refreshEdge r row hint := by
  obtain ⟨fromId, hf, h⟩ := Option.bind_eq_some_iff.mp h
  obtain ⟨toId, ht, h⟩ := Option.bind_eq_some_iff.mp h
  rcases hget : get existingByKey key with _ | row
  · rw [hget] at h
    exact .inl ⟨fromId, toId, rfl, hf, ht, (Option.some.inj h).symm⟩
  · rw [hget] at h
    refine .inr ⟨row, rfl, ?_⟩
    simp only at h
    unfold refreshEdge
    split at h
    · rename_i hs
      rw [if_pos hs]
      exact (Option.some.inj h).symm
    · rename_i hs
      rw [if_neg hs]
      exact (Option.some.inj h).symm

theorem edgeWrite_cases {w : Write (EdgeRow V)} (h : w ∈ reconcileEdges r g liveKeyToId allKeyToId) :
    (∃ hint fromId toId, get liveKeyToId hint.fromKey = some fromId ∧
        get liveKeyToId hint.toKey = some toId ∧ w = .insert (insertDiscoveredEdge r hint fromId toId)) ∨
      (∃ row hint, Loaded r g allKeyToId row ∧ w = refreshEdge r row hint) ∨
      ∃ row, Loaded r g allKeyToId row ∧ row.lastSeen.isSome ∧ w = softRemoveEdge row := by
  rcases List.mem_append.mp h with h | h
  · obtain ⟨⟨key, hint⟩, -, h⟩ := List.mem_filterMap.mp h
    rcases reconcileEdge_cases h with ⟨fromId, toId, -, hf, ht, rfl⟩ | ⟨row, hrow, rfl⟩
    · exact .inl ⟨hint, fromId, toId, hf, ht, rfl⟩
    · exact .inr (.inl ⟨row, hint, (mem_edgesByKey (mem_of_get hrow)).1, rfl⟩)
  · obtain ⟨⟨key, row⟩, he, h⟩ := List.mem_filterMap.mp h
    obtain ⟨⟨-, hlive⟩, rfl⟩ := softDeleteMissingEdge_eq_some h
    exact .inr (.inr ⟨row, (mem_edgesByKey he).1, hlive, rfl⟩)

theorem edgeBatch (hids : (g.edges.rows.map EdgeRow.id).Nodup) :
    Batch g.edges (reconcileEdges r g liveKeyToId allKeyToId) where
  old := by
    intro w hw row hrow
    rcases edgeWrite_cases hw with ⟨hint, fromId, toId, -, -, rfl⟩ | ⟨e, hint, he, rfl⟩ | ⟨e, he, -, rfl⟩
    · cases hrow
    · rw [refreshEdge_old] at hrow
      cases hrow
      exact he.1
    · cases hrow
      exact he.1
  new := by
    intro w hw row hrow
    rcases edgeWrite_cases hw with ⟨hint, fromId, toId, -, -, rfl⟩ | ⟨e, hint, -, rfl⟩ | ⟨e, -, -, rfl⟩
    · cases hrow
      rfl
    · rw [refreshEdge_new] at hrow
      rw [refreshEdge_target]
      cases hrow
      show EdgeRow.id _ = e.id
      split <;> rfl
    · cases hrow
      rfl
  once := by
    let existing := loadExistingEdgesByKey r g allKeyToId
    let reported := indexDiscoveredEdges r liveKeyToId
    let discovered := reported.filterMap fun e =>
      (reconcileEdge r liveKeyToId existing e.1 e.2).map (e.1, ·)
    let missing := existing.filterMap fun e =>
      (softDeleteMissingEdge (reported.map Prod.fst) e.1 e.2).map (e.1, ·)
    -- The keys of the two loops, as keys of rows.
    let whole (key : NameEdgeKey) : Option NameKey × Option NameKey × String :=
      (some key.1, some key.2.1, key.2.2)
    let keyed := (discovered ++ missing).map fun e => (whole e.1, e.2)
    have hwrites : reconcileEdges r g liveKeyToId allKeyToId = keyed.map Prod.snd := by
      simp [reconcileEdges, keyed, discovered, missing, existing, reported, List.map_filterMap,
        Function.comp_def]
    rw [hwrites]
    have hmissing : ∀ e ∈ missing, ∃ row, (e.1, row) ∈ existing ∧ e.2.old = some row ∧
        e.1 ∉ reported.map Prod.fst := by
      intro e he
      obtain ⟨⟨key, row⟩, hrow, h⟩ := List.mem_filterMap.mp he
      obtain ⟨w, hw, rfl⟩ := Option.map_eq_some_iff.mp h
      obtain ⟨hmiss, rfl⟩ := softDeleteMissingEdge_eq_some hw
      exact ⟨row, hrow, rfl, hmiss.1⟩
    have hwhole : Function.Injective whole := by
      rintro ⟨a, b, c⟩ ⟨a', b', c'⟩ h
      simpa [whole] using h
    apply Batch.once_of_keys (edgeKeyOf allKeyToId) hids
    · have hkeys : keyed.map Prod.fst = ((discovered ++ missing).map Prod.fst).map whole := by
        simp [keyed, Function.comp_def]
      rw [hkeys]
      refine List.Nodup.map hwhole ?_
      rw [List.map_append, List.nodup_append]
      have hsub := map_fst_filterMap_sublist reported fun e =>
        reconcileEdge r liveKeyToId existing e.1 e.2
      refine ⟨(ofPairs_nodup _).sublist hsub,
        (ofPairs_nodup _).sublist (map_fst_filterMap_sublist _ _), ?_⟩
      intro k hk k' hk' heq
      obtain ⟨e, he, rfl⟩ := List.mem_map.mp hk'
      obtain ⟨-, -, -, hnot⟩ := hmissing e he
      exact hnot (heq ▸ hsub.subset hk)
    · intro e he row hrow
      obtain ⟨e', he', rfl⟩ := List.mem_map.mp he
      rcases List.mem_append.mp he' with he' | he'
      · obtain ⟨⟨key, hint⟩, -, h⟩ := List.mem_filterMap.mp he'
        obtain ⟨w, hw, rfl⟩ := Option.map_eq_some_iff.mp h
        rcases reconcileEdge_cases hw with ⟨_, _, -, -, -, rfl⟩ | ⟨row', hget, rfl⟩
        · cases hrow
        · obtain rfl : row' = row := Option.some.inj ((refreshEdge_old row' hint).symm.trans hrow)
          obtain ⟨hload, hkey⟩ := mem_edgesByKey (mem_of_get hget)
          exact ⟨hload.1, hkey⟩
      · obtain ⟨row', hrow', hold, -⟩ := hmissing e' he'
        obtain rfl : row' = row := Option.some.inj (hold.symm.trans hrow)
        obtain ⟨hload, hkey⟩ := mem_edgesByKey hrow'
        exact ⟨hload.1, hkey⟩

end Edges
end Meho.Graph
