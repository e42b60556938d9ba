import Meho.Graph.Batches

/- Every graph that the writers make is consistent.

One lemma for each writer says that the rows it leaves are well marked
(`refreshed_wellMarked` and so on). Then every call keeps `Consistent`
(`outcome_consistent`). -/
namespace Meho.Graph
open Meho.Lib Meho.Lib.Assoc Meho.Lib.Journal

variable {V : Type} {g g' : State V}

theorem consistent_empty : Consistent (State.empty : State V) where
  constraints := ⟨List.nodup_nil, List.nodup_nil, List.nodup_nil, List.nodup_nil,
    fun _ he => absurd he List.not_mem_nil⟩
  marks := fun _ he => absurd he List.not_mem_nil

theorem Consistent.edge_ids (h : Consistent g) :
    (g.edges.rows.map (fun e => rowId e)).Nodup := h.constraints.edge_ids

/-- Rows of one id are one row. -/
theorem Consistent.edge_unique (h : Consistent g) {e e' : EdgeRow V} (he : e ∈ g.edges.rows)
    (he' : e' ∈ g.edges.rows) (hid : e.id = e'.id) : e = e' :=
  List.inj_on_of_nodup_map h.edge_ids he he' hid

theorem consistent_of_transact (h : Consistent g) {isScoped : Bool} {now : Time}
    {nodeWrites : List (Write (NodeRow V))} {edgeWrites : List (Write (EdgeRow V))}
    (hg : g.transact isScoped now nodeWrites edgeWrites = some g')
    (hids : ∀ w ∈ edgeWrites, ∀ r ∈ w.new, rowId r = w.target)
    (hmarks : ∀ w ∈ edgeWrites, ∀ r ∈ w.new, r.WellMarked) : Consistent g' := by
  obtain ⟨-, hc, rfl⟩ := State.transact_eq_some hg
  refine ⟨hc, fun e he => ?_⟩
  rcases Store.mem_rows_writeAll hids he with ⟨he, -⟩ | ⟨w, hw, hnew⟩
  · exact h.marks e he
  · exact hmarks w hw e hnew

/-! ## The writers -/

/-- A probe's edge has no list, or the one it had. -/
theorem wellMarked_of_same {e e' : EdgeRow V} (h : e.WellMarked) (hid : e'.id = e.id)
    (hsource : e'.source = .curated → e.source = .curated)
    (hs : e'.properties.lookup supersededBy = e.properties.lookup supersededBy)
    (hc : conflictList e'.properties = conflictList e.properties) : e'.WellMarked where
  curated := fun hcur => hs.trans (h.curated (hsource hcur))
  self := by
    rw [hid, hc]
    exact h.self

section Writers
variable [DecidableEq V] {operator : Operator}

theorem refreshed_wellMarked (h : Consistent g) {r : Reconcile V} {live all : List (NameKey × Nat)} :
    ∀ w ∈ reconcileEdges r g live all, ∀ e ∈ w.new, e.WellMarked := by
  intro w hw e he
  rcases edgeWrite_cases hw with ⟨hint, fromId, toId, -, -, rfl⟩ | ⟨row, hint, hrow, rfl⟩ | ⟨row, hrow, -, rfl⟩
  · cases he
    refine ⟨fun hs => (by cases hs), ?_⟩
    show _ ∉ conflictList (stripReservedMarkers hint.properties)
    simp
  · rw [refreshEdge_new] at he
    cases he
    have hmark := h.marks row hrow.1
    split
    · exact wellMarked_of_same hmark rfl (fun h => h) rfl rfl
    · exact wellMarked_of_same hmark rfl (fun h => h)
        (lookup_mergeEdgeProperties List.mem_cons_self) conflictList_merge
  · cases he
    exact wellMarked_of_same (h.marks row hrow.1) rfl (fun h => h) rfl rfl

theorem annotated_wellMarked (h : Consistent g) {a : Annotation} {f t : NodeRow V}
    (hacc : g.edges.Accepts (annotatePlan operator g a f t).writes) :
    ∀ w ∈ (annotatePlan operator g a f t).writes, ∀ e ∈ w.new, e.WellMarked := by
  obtain ⟨properties, hedge, hsup, hlist⟩ := annotatePlan_edge g operator a f t
  have hrow := upsertCuratedEdge_row g operator a f t
  -- No edge that is in conflict with the stated one has its id.
  have hother : ∀ e ∈ conflictingEdges g operator.tenantId (upsertCuratedEdge operator g a f t)
      f.id t.id a.kind, e.id ≠ (upsertCuratedEdge operator g a f t).id := by
    intro e he heq
    obtain ⟨hmem, -, -, -, hk, -⟩ := mem_conflictingEdges.mp he
    rcases hex : existingEdge operator g a f t with _ | old
    · rw [hex] at hrow
      have hnone := hacc.2 e.id (List.mem_filterMap.mpr ⟨_, List.mem_cons_self, by
        rw [hex]
        show some (annotatePlan operator g a f t).edge.id = some e.id
        rw [hedge, heq]⟩)
      rw [show g.edges.row e.id = some e from Store.row_of_mem h.edge_ids hmem] at hnone
      cases hnone
    · rw [hex] at hrow
      obtain ⟨hold, -, -, -, hkind⟩ := existingEdge_eq_some hex
      have : e = old := h.edge_unique hmem hold (heq.trans hrow.2.2.2.2.2.1)
      exact hk (this ▸ hkind)
  intro w hw e he
  rcases annotateWrite_cases hw with rfl | ⟨row, hrowmem, rfl⟩ | ⟨row, hrowmem, rfl⟩
  · rw [curatedWrite_new, hedge] at he
    cases he
    rcases hex : existingEdge operator g a f t with _ | old
    · rw [hex] at hrow
      obtain ⟨-, -, -, -, -, -, hnil, hnone⟩ := hrow
      refine ⟨fun _ => hsup.trans hnone, fun hself => ?_⟩
      rcases (hlist _).mp hself with hself | ⟨c, hc, hcid⟩
      · rw [hnil] at hself
        exact absurd hself List.not_mem_nil
      · exact hother c hc hcid
    · rw [hex] at hrow
      obtain ⟨-, -, -, -, -, hid, hsame, hnone⟩ := hrow
      have hmark := h.marks old (existingEdge_eq_some hex).1
      refine ⟨fun _ => hsup.trans (hnone hmark), fun hself => ?_⟩
      rcases (hlist _).mp hself with hself | ⟨c, hc, hcid⟩
      · rw [hsame] at hself
        change (upsertCuratedEdge operator g a f t).id ∈ _ at hself
        rw [hid] at hself
        exact hmark.self hself
      · exact hother c hc hcid
  · cases he
    obtain ⟨hmem, -, -, -, hauto, -⟩ := mem_supersededEdges.mp hrowmem
    refine ⟨fun hs => ?_, ?_⟩
    · cases hauto.symm.trans hs
    · rw [conflictList_markSuperseded]
      exact (h.marks row hmem).self
  · cases he
    have hmark := h.marks row (mem_conflictingEdges.mp hrowmem).1
    refine ⟨fun hs => (superseded_append row _).trans (hmark.curated hs), fun hself => ?_⟩
    rcases (mem_conflictList_append row _ _).mp hself with hself | hself
    · exact hmark.self hself
    · exact hother row hrowmem hself

theorem unannotated_wellMarked (h : Consistent g) {tenantId : Nat} {edge : EdgeRow V} :
    ∀ w ∈ unannotateWrites g tenantId edge, ∀ e ∈ w.new, e.WellMarked := by
  intro w hw e he
  rcases unannotateWrite_cases hw with rfl | ⟨row, hrow, rfl⟩
  · cases he
  · cases he
    have hmark := h.marks row (mem_findEdgesReferencing.mp hrow).1
    refine ⟨fun hs => ?_, fun hself => hmark.self ((mem_conflictList_clear row edge.id _).mp hself).1⟩
    rw [superseded_clear, hmark.curated hs]
    split <;> rfl

omit [DecidableEq V] in
theorem applyExistingEdge_properties (row : EdgeRow V) (p : PlannedEdge) :
    (applyExistingEdge row p).properties = row.properties ∧
      (applyExistingEdge row p).source = row.source := by
  unfold applyExistingEdge
  split
  · exact ⟨rfl, rfl⟩
  · split <;> exact ⟨rfl, rfl⟩

omit [DecidableEq V] in
theorem cutOver_wellMarked (h : Consistent g) {now : Time} {p : PlannedEdge}
    {w : Write (EdgeRow V)} (hw : edgeWrite g now p = some w) : ∀ e ∈ w.new, e.WellMarked := by
  intro e he
  have hkeep : ∀ row, g.edge p.edgeId = some row → (applyExistingEdge row p).WellMarked := by
    intro row hrow
    obtain ⟨hprops, hsource⟩ := applyExistingEdge_properties row p
    exact wellMarked_of_same (h.marks row (Store.mem_of_row hrow)) (applyExistingEdge_ends row p).1
      (fun hs => hsource.symm.trans hs) (by rw [hprops]) (by rw [hprops])
  unfold edgeWrite at hw
  split at hw
  · cases hw
    cases he
    exact ⟨fun hs => (by cases hs), fun hself => absurd hself List.not_mem_nil⟩
  · obtain ⟨row, hrow, hw⟩ := Option.map_eq_some_iff.mp hw
    split at hw
    · cases hw
      cases he
    · simp only at hw
      split at hw
      · cases hw
        cases he
        exact hkeep row hrow
      · split at hw <;> cases hw <;> cases he <;> exact hkeep row hrow

end Writers

/-! ## Runs -/

section Runs
variable [DecidableEq V] {str : Nat → String} {operator : Operator}

theorem applyReconcile_consistent (h : Consistent g) {r : Reconcile V}
    (hg : applyReconcile g r = some g') : Consistent g' :=
  consistent_of_transact h hg (edgeBatch h.edge_ids).new (refreshed_wellMarked h)

theorem annotateEdge_consistent (h : Consistent g) {a : Annotation}
    (hg : annotateEdge str operator g a = .ok g') : Consistent g' := by
  obtain ⟨f, -, t, -, htx⟩ := annotateEdge_ok hg
  exact consistent_of_transact h htx (annotateBatch operator a f t h.edge_ids).new
    (annotated_wellMarked h (State.transact_eq_some htx).1.2)

theorem toOption_eq_some {α ε : Type} {x : Except ε α} {a : α} (h : x.toOption = some a) :
    x = .ok a := by
  cases x with
  | error e => cases h
  | ok b => exact congrArg Except.ok (Option.some.inj h)

omit [DecidableEq V] in
theorem cutOver_of_outcome {x : Except CutoverRefused (Option (State V))}
    (h : x.toOption.join = some g') : x = .ok (some g') := by
  cases x with
  | error e => cases h
  | ok b => exact congrArg Except.ok h

theorem outcome_consistent (h : Consistent g) {a : Action V} (hg : outcome str g a = some g') :
    Consistent g' := by
  cases a with
  | refresh r => exact applyReconcile_consistent h hg
  | annotate operator a => exact annotateEdge_consistent h (toOption_eq_some hg)
  | unannotate operator s now =>
    obtain ⟨edge, hedge, -, hs, htx⟩ := unannotateEdge_ok (toOption_eq_some hg)
    exact consistent_of_transact h htx
      (unannotateBatch h.edge_ids operator.tenantId hedge hs (h.marks edge hedge)).new (unannotated_wellMarked h)
  | bulkImport operator seen rows dryRun =>
    exact bulkImportEdges_induct (fun _ _ _ _ hg hstep => annotateEdge_consistent hg hstep) h
      (toOption_eq_some hg)
  | createOrGetNode operator s =>
    obtain ⟨existing, -, htx⟩ := createOrGetNode_ok (toOption_eq_some hg)
    exact consistent_of_transact h htx (fun _ hw => absurd hw List.not_mem_nil)
      (fun _ hw => absurd hw List.not_mem_nil)
  | deleteNode operator nodeId now =>
    obtain ⟨node, -, -, -, -, -, -, htx⟩ := deleteNode_ok (toOption_eq_some hg)
    refine consistent_of_transact h htx (cascadeBatch h.edge_ids nodeId).new ?_
    intro w hw e he
    obtain ⟨row, -, rfl⟩ := List.mem_map.mp hw
    cases he
  | cutOver staged discoveries newId manifestId live now =>
    obtain ⟨nodeWrites, edgeWrites, -, hbatch, -, hmap, htx⟩ :=
      cutOver_ok h.constraints (cutOver_of_outcome hg)
    refine consistent_of_transact h htx hbatch.new ?_
    intro w hw
    obtain ⟨p, -, hp⟩ := mem_of_map_some hmap hw
    exact cutOver_wellMarked h hp

end Runs
end Meho.Graph
