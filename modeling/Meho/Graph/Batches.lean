import Meho.Graph.Markers
import Meho.Graph.Writers

/- Every transaction of a writer is a batch.

A graph that the writers made is consistent (`Consistent`): the constraints hold, a curated
edge has no `superseded_by`, and no edge lists itself. From there no writer touches a row
twice, so what a row is afterwards can be read off the one write to it
(`Batch.row_cases`). -/
namespace Meho.Graph
open Meho.Lib Meho.Lib.Assoc Meho.Lib.Journal

variable {V : Type}

/-- The marks that no writer sets. -/
structure EdgeRow.WellMarked (e : EdgeRow V) : Prop where
  curated : e.source = .curated → e.properties.lookup supersededBy = none
  self : e.id ∉ conflictList e.properties

/-- What every batch of writes keeps. -/
structure Consistent (g : State V) : Prop where
  constraints : g.Constraints
  marks : ∀ e ∈ g.edges.rows, e.WellMarked

section Batches
variable {g g' : State V} {operator : Operator}

theorem once_of_rows {ρ σ : Type} [Recorded ρ σ] {s : Store ρ σ} {ws : List (Write ρ)}
    (hids : (s.rows.map (fun r => rowId r)).Nodup) (hold : ∀ w ∈ ws, ∀ r ∈ w.old, r ∈ s.rows)
    (hnd : (ws.filterMap Write.old).Nodup) : (ws.filterMap Write.touched).Nodup := by
  have htouched : ws.filterMap Write.touched = (ws.filterMap Write.old).map fun r => rowId r := by
    rw [List.map_filterMap]
    rfl
  rw [htouched]
  refine hnd.map_on ?_
  intro r hr r' hr' heq
  obtain ⟨w, hw, hwr⟩ := List.mem_filterMap.mp hr
  obtain ⟨w', hw', hwr'⟩ := List.mem_filterMap.mp hr'
  exact List.inj_on_of_nodup_map hids (hold w hw r hwr) (hold w' hw' r' hwr') heq

/-- A node can be deleted with everything that joins it. -/
theorem cascadeBatch (hids : (g.edges.rows.map EdgeRow.id).Nodup) (nodeId : Nat) :
    Batch g.edges ((cascadedEdges g nodeId).map .cascade) where
  old := by
    intro w hw r hr
    obtain ⟨e, he, rfl⟩ := List.mem_map.mp hw
    cases hr
    exact (List.mem_filter.mp he).1
  new := by
    intro w hw r hr
    obtain ⟨e, -, rfl⟩ := List.mem_map.mp hw
    cases hr
  once := by
    rw [List.filterMap_map]
    show ((cascadedEdges g nodeId).filterMap fun e => some e.id).Nodup
    rw [List.filterMap_eq_map']
    exact (List.filter_sublist.map _).nodup hids

variable [DecidableEq V]

/-! ## Annotations -/

section Annotate
variable {a : Annotation} {f t : NodeRow V}

omit [DecidableEq V] in
theorem existingEdge_eq_some {e : EdgeRow V} (h : existingEdge operator g a f t = some e) :
    e ∈ g.edges.rows ∧ e.tenantId = operator.tenantId ∧ e.fromNodeId = f.id ∧ e.toNodeId = t.id ∧
      e.kind = a.kind := mem_findExistingEdge h

omit [DecidableEq V] in
variable (g operator a f t) in
/-- The stated edge joins the nodes, under the id of the existing one or a new one. -/
theorem upsertCuratedEdge_row :
    let edge := upsertCuratedEdge operator g a f t
    edge.tenantId = operator.tenantId ∧ edge.fromNodeId = f.id ∧ edge.toNodeId = t.id ∧
      edge.kind = a.kind ∧ edge.source = .curated ∧
      match existingEdge operator g a f t with
      | none => edge.id = a.newId ∧ conflictList edge.properties = [] ∧
          edge.properties.lookup supersededBy = none
      | some old => edge.id = old.id ∧
          conflictList edge.properties = conflictList old.properties ∧
          (old.WellMarked → edge.properties.lookup supersededBy = none) := by
  intro edge
  rcases hex : existingEdge operator g a f t with _ | old
  · have hedge : edge = insertCuratedEdge operator a f t := by
      show upsertCuratedEdge operator g a f t = _
      rw [upsertCuratedEdge, hex]
    rw [hedge]
    exact ⟨rfl, rfl, rfl, rfl, rfl, rfl, conflictList_insertCurated operator a f t,
      superseded_insertCurated operator a f t⟩
  · have hedge : edge = mergeOntoExistingEdge operator a old := by
      show upsertCuratedEdge operator g a f t = _
      rw [upsertCuratedEdge, hex]
    obtain ⟨-, ht, hf, hto, hk⟩ := existingEdge_eq_some hex
    have hrow : edge.tenantId = old.tenantId ∧ edge.fromNodeId = old.fromNodeId ∧
        edge.toNodeId = old.toNodeId ∧ edge.kind = old.kind ∧ edge.source = .curated ∧
        edge.id = old.id := by
      rw [hedge]
      unfold mergeOntoExistingEdge
      simp only
      split
      · exact ⟨rfl, rfl, rfl, rfl, rfl, rfl⟩
      · rename_i hs
        exact ⟨rfl, rfl, rfl, rfl, not_not.mp hs, rfl⟩
    obtain ⟨h₁, h₂, h₃, h₄, h₅, h₆⟩ := hrow
    refine ⟨h₁.trans ht, h₂.trans hf, h₃.trans hto, h₄.trans hk, h₅, h₆, ?_, ?_⟩
    · rw [hedge, conflictList_mergeOnto]
    · intro hold
      rw [hedge]
      exact superseded_mergeOnto operator a hold.curated

theorem mem_supersededEdges {id fromId toId : Nat} {kind : String} {e : EdgeRow V} :
    e ∈ supersededEdges g operator.tenantId id fromId toId kind ↔
      e ∈ g.edges.rows ∧ e.tenantId = operator.tenantId ∧ e.fromNodeId = fromId ∧ e.kind = kind ∧
        e.source = .auto ∧ e.toNodeId ≠ toId ∧
        e.properties.lookup supersededBy ≠ some (.uuid id) := by
  simp only [supersededEdges, List.mem_filter, Bool.and_eq_true, decide_eq_true_eq,
    Bool.not_eq_true', ← Bool.not_eq_true, supersedes_iff, ne_eq, and_assoc]

omit [DecidableEq V] in
theorem mem_conflictingEdges {edge : EdgeRow V} {fromId toId : Nat} {kind : String} {e : EdgeRow V} :
    e ∈ conflictingEdges g operator.tenantId edge fromId toId kind ↔
      e ∈ g.edges.rows ∧ e.tenantId = operator.tenantId ∧ e.fromNodeId = fromId ∧
        e.toNodeId = toId ∧ e.kind ≠ kind ∧
        ¬(edge.id ∈ conflictList e.properties ∧ e.id ∈ conflictList edge.properties) := by
  simp only [conflictingEdges, List.mem_filter, Bool.and_eq_true, decide_eq_true_eq,
    Bool.not_eq_true', ← Bool.not_eq_true, ne_eq, and_assoc]

variable (operator g a f t) in
/-- The row of the stated edge afterwards. -/
theorem annotatePlan_edge :
    let edge := upsertCuratedEdge operator g a f t
    ∃ properties, (annotatePlan operator g a f t).edge = { edge with properties := properties } ∧
      properties.lookup supersededBy = edge.properties.lookup supersededBy ∧
      ∀ i, i ∈ conflictList properties ↔ i ∈ conflictList edge.properties ∨
        ∃ e ∈ conflictingEdges g operator.tenantId edge f.id t.id a.kind, e.id = i := by
  intro edge
  obtain ⟨properties, hrow, hs, hc⟩ :=
    appendAll_row (conflictingEdges g operator.tenantId edge f.id t.id a.kind) edge
  exact ⟨properties, hrow, hs, fun i => by rw [hc, List.mem_map]⟩

theorem annotateWrite_cases {w : Write (EdgeRow V)}
    (h : w ∈ (annotatePlan operator g a f t).writes) :
    let edge := upsertCuratedEdge operator g a f t
    w = curatedWrite (existingEdge operator g a f t) (annotatePlan operator g a f t).edge ∨
      (∃ e ∈ supersededEdges g operator.tenantId edge.id f.id t.id a.kind,
        w = .update e (markSuperseded e edge.id)) ∨
      ∃ e ∈ conflictingEdges g operator.tenantId edge f.id t.id a.kind,
        w = .update e (appendConflictMarker e edge.id) := by
  intro edge
  rcases List.mem_cons.mp h with rfl | h
  · exact .inl rfl
  · rcases List.mem_append.mp h with h | h
    · obtain ⟨e, he, rfl⟩ := List.mem_map.mp h
      exact .inr (.inl ⟨e, he, rfl⟩)
    · obtain ⟨e, he, rfl⟩ := List.mem_map.mp h
      exact .inr (.inr ⟨e, he, rfl⟩)

theorem curatedWrite_old (existing : Option (EdgeRow V)) (edge : EdgeRow V) :
    (curatedWrite existing edge).old = existing := by
  unfold curatedWrite
  cases existing with
  | none => rfl
  | some old =>
    simp only
    split <;> rfl

theorem curatedWrite_new (existing : Option (EdgeRow V)) (edge : EdgeRow V) :
    (curatedWrite existing edge).new = some edge := by
  unfold curatedWrite
  cases existing with
  | none => rfl
  | some old =>
    simp only
    split <;> rfl

theorem curatedWrite_target {existing : Option (EdgeRow V)} {edge : EdgeRow V}
    (h : ∀ old, existing = some old → edge.id = old.id) : (curatedWrite existing edge).target = edge.id := by
  unfold curatedWrite
  cases existing with
  | none => rfl
  | some old =>
    have hid := h old rfl
    simp only
    split <;> exact hid.symm

/-- The stated edge keeps the id of the row that it merges onto. -/
theorem annotatePlan_edge_id {old : EdgeRow V} (h : existingEdge operator g a f t = some old) :
    (annotatePlan operator g a f t).edge.id = old.id := by
  obtain ⟨properties, hrow, -⟩ := annotatePlan_edge g operator a f t
  have hfacts := upsertCuratedEdge_row g operator a f t
  rw [h] at hfacts
  rw [hrow]
  exact hfacts.2.2.2.2.2.1

variable (operator a f t) in
theorem annotateBatch (hids : (g.edges.rows.map EdgeRow.id).Nodup) :
    Batch g.edges (annotatePlan operator g a f t).writes := by
  have hold : ∀ w ∈ (annotatePlan operator g a f t).writes, ∀ r ∈ w.old, r ∈ g.edges.rows := by
    intro w hw r hr
    rcases annotateWrite_cases hw with rfl | ⟨e, he, rfl⟩ | ⟨e, he, rfl⟩
    · rw [curatedWrite_old] at hr
      exact (existingEdge_eq_some hr).1
    · cases hr
      exact (mem_supersededEdges.mp he).1
    · cases hr
      exact (mem_conflictingEdges.mp he).1
  refine ⟨hold, ?_, once_of_rows hids hold ?_⟩
  · intro w hw r hr
    rcases annotateWrite_cases hw with rfl | ⟨e, he, rfl⟩ | ⟨e, he, rfl⟩
    · rw [curatedWrite_new] at hr
      cases hr
      exact (curatedWrite_target fun old h => annotatePlan_edge_id h).symm
    · cases hr
      rfl
    · cases hr
      rfl
  · -- The three kinds of rows differ in where they lead or in their kind.
    have hrows : g.edges.rows.Nodup := List.Nodup.of_map _ hids
    let edge := upsertCuratedEdge operator g a f t
    have holds : (annotatePlan operator g a f t).writes.filterMap Write.old =
        (existingEdge operator g a f t).toList ++
          (supersededEdges g operator.tenantId edge.id f.id t.id a.kind ++
            conflictingEdges g operator.tenantId edge f.id t.id a.kind) := by
      show List.filterMap _ (_ :: (_ ++ _)) = _
      rw [List.filterMap_cons, curatedWrite_old, List.filterMap_append, List.filterMap_map,
        List.filterMap_map]
      cases existingEdge operator g a f t with
      | none | some old => simp [Function.comp_def, Write.old, edge]
    rw [holds]
    refine List.nodup_append.mpr ⟨?_, List.nodup_append.mpr ⟨?_, ?_, ?_⟩, ?_⟩
    · cases existingEdge operator g a f t with
      | none => exact List.nodup_nil
      | some old => exact List.nodup_singleton _
    · exact (hrows.filter _).filter _
    · exact (hrows.filter _).filter _
    · rintro e he e' he' rfl
      exact (mem_supersededEdges.mp he).2.2.2.2.2.1 (mem_conflictingEdges.mp he').2.2.2.1
    · rintro e he e' he' rfl
      obtain ⟨-, -, -, hto, hk⟩ := existingEdge_eq_some (Option.mem_toList.mp he)
      rcases List.mem_append.mp he' with he' | he'
      · exact (mem_supersededEdges.mp he').2.2.2.2.2.1 hto
      · exact (mem_conflictingEdges.mp he').2.2.2.2.1 hk

end Annotate

/-! ## Unannotations -/

theorem mem_findEdgesReferencing {tenantId id : Nat} {e : EdgeRow V} :
    e ∈ findEdgesReferencing g tenantId id ↔ e ∈ g.edges.rows ∧ e.tenantId = tenantId ∧
      (e.properties.lookup supersededBy = some (.uuid id) ∨ id ∈ conflictList e.properties) := by
  simp only [findEdgesReferencing, List.mem_filter, Bool.and_eq_true, Bool.or_eq_true,
    decide_eq_true_eq, supersedes_iff]

theorem unannotateWrite_cases {tenantId : Nat} {edge : EdgeRow V} {w : Write (EdgeRow V)}
    (h : w ∈ unannotateWrites g tenantId edge) : w = .remove edge ∨
      ∃ e ∈ findEdgesReferencing g tenantId edge.id,
        w = .update e (clearReciprocalMarkers e edge.id) := by
  rcases List.mem_cons.mp h with rfl | h
  · exact .inl rfl
  · obtain ⟨e, he, rfl⟩ := List.mem_map.mp h
    exact .inr ⟨e, he, rfl⟩

theorem unannotateBatch (hids : (g.edges.rows.map EdgeRow.id).Nodup) (tenantId : Nat)
    {edge : EdgeRow V} (hedge : edge ∈ g.edges.rows) (hs : edge.source = .curated)
    (hmark : edge.WellMarked) : Batch g.edges (unannotateWrites g tenantId edge) := by
  have hold : ∀ w ∈ unannotateWrites g tenantId edge, ∀ r ∈ w.old, r ∈ g.edges.rows := by
    intro w hw r hr
    rcases unannotateWrite_cases hw with rfl | ⟨e, he, rfl⟩
    · cases hr
      exact hedge
    · cases hr
      exact (mem_findEdgesReferencing.mp he).1
  refine ⟨hold, ?_, once_of_rows hids hold ?_⟩
  · intro w hw r hr
    rcases unannotateWrite_cases hw with rfl | ⟨e, he, rfl⟩
    · cases hr
    · cases hr
      rfl
  · have holds : (unannotateWrites g tenantId edge).filterMap Write.old =
        edge :: findEdgesReferencing g tenantId edge.id := by
      show List.filterMap _ (_ :: _) = _
      rw [List.filterMap_cons, List.filterMap_map]
      simp [Function.comp_def, Write.old]
    rw [holds]
    refine List.nodup_cons.mpr ⟨fun hself => ?_, (List.Nodup.of_map _ hids).filter _⟩
    obtain ⟨-, -, href⟩ := mem_findEdgesReferencing.mp hself
    rcases href with href | href
    · rw [hmark.curated hs] at href
      cases href
    · exact hmark.self href

/-! ## The cut-over -/

/-- The rows that the plan was made of are the rows there are. -/
theorem loaded_of_cutOver {str : Nat → String} {m : StoredManifest} {live : List Nat} {now : Time}
    (h : cutOver str g live m now = .ok (some g')) :
    g.isScoped = false ∧ snapshotVersion (loadNodes g) (loadEdges g) = m.snapshot := by
  unfold cutOver at h
  obtain ⟨_, hload, -⟩ := except_bind_eq_ok h
  unfold lockAndLoad at hload
  split at hload
  · cases hload
  · rename_i hs
    refine ⟨Bool.eq_false_iff.mpr hs, ?_⟩
    split at hload
    · cases hload
    · obtain ⟨_, -, hload⟩ := except_bind_eq_ok hload
      split at hload
      · cases hload
      · rename_i hsnap
        exact not_not.mp hsnap

theorem filterMap_of_map_some {α β γ : Type} {f : α → Option β} {k : β → Option γ}
    {k' : α → Option γ} {l : List α} {ws : List β} (h : l.map f = ws.map some)
    (hk : ∀ x ∈ l, ∀ w, f x = some w → k w = k' x) : ws.filterMap k = l.filterMap k' := by
  induction l generalizing ws with
  | nil =>
    cases ws with
    | nil => rfl
    | cons w ws => cases h
  | cons x l ih =>
    cases ws with
    | nil => cases h
    | cons w ws =>
      obtain ⟨hx, hl⟩ := List.cons.inj h
      obtain ⟨hkx, hkl⟩ := List.forall_mem_cons.mp hk
      rw [List.filterMap_cons, List.filterMap_cons, hkx w hx, ih hl hkl]

/-- The write for a planned row starts from the row of the planned id. -/
theorem nodeWrite_touched {provenance : String} {now : Time} {p : PlannedNode}
    {w : Write (NodeRow V)} (h : nodeWrite g provenance now p = some w) :
    (∀ r ∈ w.old, r ∈ g.nodes.rows) ∧ (∀ r ∈ w.new, rowId r = w.target) ∧
      w.touched = if p.action = .publish then none else some p.nodeId := by
  unfold nodeWrite at h
  split at h
  · rename_i hpub
    cases h
    exact ⟨fun r hr => (by cases hr), fun r hr => (by cases hr; rfl), by rw [if_pos hpub]; rfl⟩
  · rename_i hpub
    obtain ⟨row, hrow, h⟩ := Option.map_eq_some_iff.mp h
    have hid : row.id = p.nodeId := Store.id_of_row hrow
    have hnew : (applyExistingNode row p provenance).id = row.id := (applyExistingNode_spec row p).1
    simp only at h
    rw [if_neg hpub, ← hid]
    split at h <;> cases h <;>
      exact ⟨fun r hr => by cases hr; exact Store.mem_of_row hrow,
        fun r hr => by cases hr; exact hnew, rfl⟩

omit [DecidableEq V] in
theorem edgeWrite_touched {now : Time} {p : PlannedEdge} {w : Write (EdgeRow V)}
    (h : edgeWrite g now p = some w) :
    (∀ r ∈ w.old, r ∈ g.edges.rows) ∧ (∀ r ∈ w.new, rowId r = w.target) ∧
      w.touched = if p.action = .publish then none else some p.edgeId := by
  unfold edgeWrite at h
  split at h
  · rename_i hpub
    cases h
    exact ⟨fun r hr => (by cases hr), fun r hr => (by cases hr; rfl), by rw [if_pos hpub]; rfl⟩
  · rename_i hpub
    obtain ⟨row, hrow, h⟩ := Option.map_eq_some_iff.mp h
    have hid : row.id = p.edgeId := Store.id_of_row hrow
    have hmem : row ∈ g.edges.rows := Store.mem_of_row hrow
    have hnew := (applyExistingEdge_ends row p).1
    rw [if_neg hpub, ← hid]
    split at h
    · cases h
      exact ⟨fun r hr => by cases hr; exact hmem, fun r hr => (by cases hr), rfl⟩
    · simp only at h
      split at h
      · cases h
        exact ⟨fun r hr => by cases hr; exact hmem, fun r hr => by cases hr; exact hnew, rfl⟩
      · split at h <;> cases h <;>
          exact ⟨fun r hr => by cases hr; exact hmem, fun r hr => by cases hr; exact hnew, rfl⟩

/-- A cut-over on a staged manifest is a transaction of two batches, a write for each planned
row. -/
theorem cutOver_ok (hc : g.Constraints) {str : Nat → String} {staged : State V}
    {discoveries : List (TargetDiscovery V)} {newId : Nat → Nat} {manifestId : Nat}
    {live : List Nat} {now : Time}
    (h : cutOver str g live (stage str staged discoveries newId manifestId) now = .ok (some g')) :
    let m := stage str staged discoveries newId manifestId
    ∃ nodeWrites edgeWrites,
      Batch g.nodes nodeWrites ∧ Batch g.edges edgeWrites ∧
      m.plan.nodes.map (nodeWrite g ("scope-repair:" ++ str m.id) now) = nodeWrites.map some ∧
      m.plan.edges.map (edgeWrite g now) = edgeWrites.map some ∧
      g.transact true now nodeWrites edgeWrites = some g' := by
  intro m
  obtain ⟨-, hsnap⟩ := loaded_of_cutOver h
  have happly := applyPlan_of_cutOver h
  unfold applyPlan at happly
  obtain ⟨nodeWrites, hn, happly⟩ := Option.bind_eq_some_iff.mp happly
  obtain ⟨edgeWrites, he, happly⟩ := Option.bind_eq_some_iff.mp happly
  have hnodes := map_of_mapM hn
  have hedges := map_of_mapM he
  refine ⟨nodeWrites, edgeWrites, ⟨?_, ?_, ?_⟩, ⟨?_, ?_, ?_⟩, hnodes, hedges, happly⟩
  · intro w hw
    obtain ⟨p, -, hp⟩ := mem_of_map_some hnodes hw
    exact (nodeWrite_touched hp).1
  · intro w hw
    obtain ⟨p, -, hp⟩ := mem_of_map_some hnodes hw
    exact (nodeWrite_touched hp).2.1
  · have hids : ((loadNodes staged).map OldNode.id).Nodup := by
      -- the snapshots are equal, so the graph has the rows that were planned for
      have hperm : (loadNodes g).Perm (loadNodes staged) :=
        (perm_orderBy OldNode.id _).symm.trans
          ((Prod.mk.inj hsnap).1 ▸ perm_orderBy OldNode.id (loadNodes staged))
      refine (hperm.map OldNode.id).nodup_iff.mp ?_
      rw [loadNodes, List.map_map]
      exact hc.node_ids
    rw [filterMap_of_map_some hnodes fun p hp w hw => ?_]
    · exact buildPlan_old_nodup hids
    · rw [(nodeWrite_touched hw).2.2]
      rcases buildPlan_node_cases hp with ⟨row, -, hold, hid, hne⟩ | ⟨hold, hpub⟩
      · rw [if_neg hne, hold, hid]
      · rw [if_pos hpub, hold]
  · intro w hw
    obtain ⟨p, -, hp⟩ := mem_of_map_some hedges hw
    exact (edgeWrite_touched hp).1
  · intro w hw
    obtain ⟨p, -, hp⟩ := mem_of_map_some hedges hw
    exact (edgeWrite_touched hp).2.1
  · have hids : ((loadEdges staged).map OldEdge.id).Nodup := by
      -- the same for the edges
      have hperm : (loadEdges g).Perm (loadEdges staged) :=
        (perm_orderBy OldEdge.id _).symm.trans
          ((Prod.mk.inj hsnap).2 ▸ perm_orderBy OldEdge.id (loadEdges staged))
      refine (hperm.map OldEdge.id).nodup_iff.mp ?_
      rw [loadEdges, List.map_map]
      exact hc.edge_ids
    rw [filterMap_of_map_some hedges fun p hp w hw => ?_]
    · exact buildPlan_edges_nodup hids
    · rw [(edgeWrite_touched hw).2.2]
      rcases buildPlan_edge_old hp with ⟨row, -, hold, hid, -, hne⟩ | ⟨hold, hpub⟩
      · rw [if_neg hne, hold, hid]
      · rw [if_pos hpub, hold]

end Batches
end Meho.Graph
