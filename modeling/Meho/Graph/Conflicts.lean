import Meho.Graph.Consistent

/- The conflict markers are symmetric, but for what a cut-over deletes.

In a graph with `Mutual` every id that an edge lists is that of another edge between the
same nodes, which lists the first one. A writer keeps this if the rows that it leaves keep
their ends and lists, up to marks that it sets on both sides and ids of rows that it removes
(`mutual_of`). All writers do, but a cut-over that deletes an edge which an edge it leaves
lists. -/
namespace Meho.Graph
open Meho.Lib Meho.Lib.Assoc Meho.Lib.Journal

variable {V : Type} {g g' : State V}

/-- Two edges between the same nodes, of different kinds. -/
structure InConflict (e f : EdgeRow V) : Prop where
  tenant : f.tenantId = e.tenantId
  ends : f.fromNodeId = e.fromNodeId ∧ f.toNodeId = e.toNodeId
  kind : f.kind ≠ e.kind

/-- Whatever an edge lists exists, is in conflict with it, and lists it. -/
def Mutual (g : State V) : Prop :=
  ∀ e ∈ g.edges.rows, ∀ i ∈ conflictList e.properties, ∃ f ∈ g.edges.rows, f.id = i ∧
    InConflict e f ∧ e.id ∈ conflictList f.properties

/-- The same edge, with whatever properties. -/
structure SameEdge (e e' : EdgeRow V) : Prop where
  id : e'.id = e.id
  tenant : e'.tenantId = e.tenantId
  ends : e'.fromNodeId = e.fromNodeId ∧ e'.toNodeId = e.toNodeId
  kind : e'.kind = e.kind

theorem SameEdge.rfl (e : EdgeRow V) : SameEdge e e :=
  ⟨Eq.refl _, Eq.refl _, ⟨Eq.refl _, Eq.refl _⟩, Eq.refl _⟩

theorem InConflict.of_same {e e' f f' : EdgeRow V} (h : InConflict e f) (he : SameEdge e e')
    (hf : SameEdge f f') : InConflict e' f' where
  tenant := hf.tenant.trans (h.tenant.trans he.tenant.symm)
  ends := ⟨hf.ends.1.trans (h.ends.1.trans he.ends.1.symm), hf.ends.2.trans (h.ends.2.trans he.ends.2.symm)⟩
  kind := by
    rw [hf.kind, he.kind]
    exact h.kind

/-- Rows outside `gone` stay what they were and lose at most ids in `gone`; what they list
besides is listed on both sides. -/
theorem mutual_of (h : Mutual g) (gone : Nat → Prop)
    (hsucc : ∀ e ∈ g.edges.rows, ¬ gone e.id → ∃ e' ∈ g'.edges.rows, SameEdge e e' ∧
      ∀ i ∈ conflictList e.properties, ¬ gone i → i ∈ conflictList e'.properties)
    (hpred : ∀ e' ∈ g'.edges.rows, ∀ i ∈ conflictList e'.properties,
      (∃ e ∈ g.edges.rows, SameEdge e e' ∧ ¬ gone e.id ∧ i ∈ conflictList e.properties ∧ ¬ gone i) ∨
        ∃ f ∈ g'.edges.rows, f.id = i ∧ InConflict e' f ∧ e'.id ∈ conflictList f.properties) :
    Mutual g' := by
  intro e' he' i hi
  rcases hpred e' he' i hi with ⟨e, he, hsame, hkept, hlist, hi'⟩ | hboth
  · obtain ⟨f, hf, hfi, hconf, hback⟩ := h e he i hlist
    obtain ⟨f', hf', hfsame, hflist⟩ := hsucc f hf (hfi ▸ hi')
    refine ⟨f', hf', hfsame.id.trans hfi, hconf.of_same hsame hfsame, ?_⟩
    rw [hsame.id]
    exact hflist e.id hback hkept
  · exact hboth

/-- Rows that are seen, retired or inserted without a list, and removed with every row that
lists them. -/
theorem mutual_of_batch (h : Mutual g) (hids : (g.edges.rows.map (fun e => rowId e)).Nodup)
    {now : Time} {ws : List (Write (EdgeRow V))} (hbatch : Batch g.edges ws)
    (hacc : g.edges.Accepts ws) (hedges : g'.edges = g.edges.writeAll now ws)
    (hwrites : ∀ w ∈ ws, ∀ e' ∈ w.new, match w.old with
      | none => conflictList e'.properties = []
      | some e => SameEdge e e' ∧ conflictList e'.properties = conflictList e.properties)
    (hkept : ∀ w ∈ ws, w.new = none → ∀ e ∈ g.edges.rows, w.target ∈ conflictList e.properties →
      ∃ w' ∈ ws, w'.new = none ∧ w'.target = e.id) : Mutual g' := by
  let gone (i : Nat) : Prop := ∃ w ∈ ws, w.new = none ∧ w.target = i
  -- an edge that stays names no edge that goes
  have hnotGone : ∀ e ∈ g.edges.rows, ¬ gone e.id → ∀ i ∈ conflictList e.properties, ¬ gone i := by
    rintro e he hstay i hi ⟨w, hw, hnew, rfl⟩
    exact hstay (hkept w hw hnew e he hi)
  apply mutual_of h gone
  · intro e he hstay
    rcases hbatch.old_cases hids hacc now he with ⟨w, hw, hold, hnew⟩ | ⟨hrow, -⟩
    · rcases hn : w.new with _ | e'
      · exact absurd ⟨w, hw, hn, Write.target_of_old hold⟩ hstay
      · have hsame := hwrites w hw e' hn
        rw [hold] at hsame
        exact ⟨e', hedges ▸ hnew e' hn, hsame.1, fun i hi _ => hsame.2 ▸ hi⟩
    · exact ⟨e, hedges ▸ hrow, SameEdge.rfl e, fun i hi _ => hi⟩
  · intro e' he' i hi
    refine .inl ?_
    rcases Store.mem_rows_writeAll hbatch.new (hedges ▸ he') with ⟨he, hunwritten⟩ | ⟨w, hw, hnew⟩
    · have hstay : ¬ gone e'.id := by
        rintro ⟨w, hw, hnew, ht⟩
        refine hunwritten w hw ?_ ht
        cases w with
        | insert new => cases hnew
        | _ => rfl
      exact ⟨e', he, SameEdge.rfl e', hstay, hi, hnotGone e' he hstay i hi⟩
    · have hsame := hwrites w hw e' hnew
      rcases hold : w.old with _ | e
      · rw [hold] at hsame
        rw [hsame] at hi
        exact absurd hi List.not_mem_nil
      · rw [hold] at hsame
        obtain ⟨hsame, hlist⟩ := hsame
        have he : e ∈ g.edges.rows := hbatch.old w hw e hold
        have hstay : ¬ gone e.id := by
          rintro ⟨w', hw', hnone, ht⟩
          have heq : w' = w := List.inj_on_of_nodup_map (hbatch.targets_nodup hids hacc) hw' hw
            (ht.trans (Write.target_of_old hold).symm)
          rw [heq, hnew] at hnone
          cases hnone
        rw [hlist] at hi
        exact ⟨e, he, hsame, hstay, hi, hnotGone e he hstay i hi⟩

/-! ## The writers -/

section Writers
variable [DecidableEq V] {str : Nat → String} {operator : Operator}

section
variable (hc : Consistent g) (h : Mutual g)
include hc h

theorem refresh_mutual {r : Reconcile V} (hg : applyReconcile g r = some g') : Mutual g' := by
  obtain ⟨hacc, -, -, hedges, -⟩ := applyReconcile_eq_some hg
  refine mutual_of_batch h hc.edge_ids (edgeBatch hc.edge_ids) hacc.2 hedges ?_ ?_
  · intro w hw e' he'
    rcases edgeWrite_cases hw with ⟨hint, fromId, toId, -, -, rfl⟩ | ⟨row, hint, -, rfl⟩ | ⟨row, -, -, rfl⟩
    · cases he'
      exact conflictList_strip
    · rw [refreshEdge_new] at he'
      rw [refreshEdge_old]
      cases he'
      show SameEdge row _ ∧ _
      split
      · exact ⟨⟨rfl, rfl, ⟨rfl, rfl⟩, rfl⟩, rfl⟩
      · exact ⟨⟨rfl, rfl, ⟨rfl, rfl⟩, rfl⟩, conflictList_merge⟩
    · cases he'
      exact ⟨⟨rfl, rfl, ⟨rfl, rfl⟩, rfl⟩, rfl⟩
  · intro w hw hnew
    have hsome := edgeWrite_new_isSome hw
    rw [hnew] at hsome
    cases hsome

theorem annotate_mutual {a : Annotation} (hg : annotateEdge str operator g a = .ok g') :
    Mutual g' := by
  obtain ⟨f, -, t, -, htx⟩ := annotateEdge_ok hg
  obtain ⟨⟨-, hacc⟩, -, rfl⟩ := State.transact_eq_some htx
  have hbatch := annotateBatch operator a f t hc.edge_ids
  let edge := upsertCuratedEdge operator g a f t
  obtain ⟨properties, hmarked, -, hlist⟩ := annotatePlan_edge g operator a f t
  obtain ⟨htenant, hfrom, hto, hkind, -, hex⟩ :=
    upsertCuratedEdge_row g operator a f t
  -- The stated edge and one of another kind say so of each other.
  have hconf : ∀ c ∈ conflictingEdges g operator.tenantId edge f.id t.id a.kind,
      InConflict { edge with properties := properties } c := by
    intro c hcmem
    obtain ⟨-, ht, hf, hto', hk, -⟩ := mem_conflictingEdges.mp hcmem
    exact ⟨ht.trans htenant.symm, ⟨hf.trans hfrom.symm, hto'.trans hto.symm⟩,
      fun heq => hk (heq.trans hkind)⟩
  have hnewMarked := hbatch.mem_of_new hc.edge_ids hacc a.now List.mem_cons_self
    ((curatedWrite_new _ _).trans (congrArg some hmarked))
  have hnewOther : ∀ c ∈ conflictingEdges g operator.tenantId edge f.id t.id a.kind,
      appendConflictMarker c edge.id ∈ (g.edges.writeAll a.now (annotatePlan operator g a f t).writes).rows := by
    intro c hcmem
    refine hbatch.mem_of_new hc.edge_ids hacc a.now
      (List.mem_cons_of_mem _ (List.mem_append_right _ (List.mem_map_of_mem hcmem))) rfl
  apply mutual_of h fun _ => False
  · rintro e he -
    rcases hbatch.old_cases hc.edge_ids hacc a.now he with ⟨w, hw, hold, hnew⟩ | ⟨hrow, -⟩
    · rcases annotateWrite_cases hw with rfl | ⟨row, -, rfl⟩ | ⟨row, -, rfl⟩
      · rw [curatedWrite_old] at hold
        rw [hold] at hex
        obtain ⟨-, ht, hf, hto', hk⟩ := existingEdge_eq_some hold
        refine ⟨_, hnewMarked, ⟨hex.1, htenant.trans ht.symm, ⟨hfrom.trans hf.symm, hto.trans hto'.symm⟩,
          hkind.trans hk.symm⟩, fun i hi _ => (hlist i).mpr (.inl ?_)⟩
        rw [hex.2.1]
        exact hi
      · cases hold
        refine ⟨_, hnew _ rfl, ⟨rfl, rfl, ⟨rfl, rfl⟩, rfl⟩, fun i hi _ => ?_⟩
        rw [conflictList_markSuperseded]
        exact hi
      · cases hold
        exact ⟨_, hnew _ rfl, ⟨rfl, rfl, ⟨rfl, rfl⟩, rfl⟩,
          fun i hi _ => (mem_conflictList_append _ _ _).mpr (.inl hi)⟩
    · exact ⟨e, hrow, SameEdge.rfl e, fun i hi _ => hi⟩
  · intro e' he' i hi
    rcases Store.mem_rows_writeAll hbatch.new he' with ⟨he, -⟩ | ⟨w, hw, hnew⟩
    · exact .inl ⟨e', he, SameEdge.rfl e', id, hi, id⟩
    · rcases annotateWrite_cases hw with rfl | ⟨row, hrow, rfl⟩ | ⟨row, hrow, rfl⟩
      · rw [curatedWrite_new, hmarked] at hnew
        cases hnew
        rcases (hlist i).mp hi with hi | ⟨c, hcmem, rfl⟩
        · rcases hold : existingEdge operator g a f t with _ | old
          · rw [hold] at hex
            rw [hex.2.1] at hi
            exact absurd hi List.not_mem_nil
          · rw [hold] at hex
            obtain ⟨hmem, ht, hf, hto', hk⟩ := existingEdge_eq_some hold
            exact .inl ⟨old, hmem, ⟨hex.1, htenant.trans ht.symm,
              ⟨hfrom.trans hf.symm, hto.trans hto'.symm⟩, hkind.trans hk.symm⟩, id, hex.2.1 ▸ hi, id⟩
        · have hsame : SameEdge c (appendConflictMarker c edge.id) := ⟨rfl, rfl, ⟨rfl, rfl⟩, rfl⟩
          have hother := (hconf c hcmem).of_same (SameEdge.rfl _) hsame
          exact .inr ⟨_, hnewOther c hcmem, rfl, hother, (mem_conflictList_append _ _ _).mpr (.inr rfl)⟩
      · cases hnew
        rw [conflictList_markSuperseded] at hi
        exact .inl ⟨row, (mem_supersededEdges.mp hrow).1, ⟨rfl, rfl, ⟨rfl, rfl⟩, rfl⟩, id, hi, id⟩
      · cases hnew
        rcases (mem_conflictList_append _ _ _).mp hi with hi | rfl
        · exact .inl ⟨row, (mem_conflictingEdges.mp hrow).1, ⟨rfl, rfl, ⟨rfl, rfl⟩, rfl⟩, id, hi, id⟩
        · have hc' := hconf row hrow
          exact .inr ⟨_, hnewMarked, rfl,
            ⟨hc'.tenant.symm, ⟨hc'.ends.1.symm, hc'.ends.2.symm⟩, hc'.kind.symm⟩,
            (hlist _).mpr (.inr ⟨row, hrow, rfl⟩)⟩

theorem unannotate_mutual {edge : EdgeRow V} {now : Time} (hedge : edge ∈ g.edges.rows)
    (hs : edge.source = .curated)
    (htx : g.transact g.isScoped now [] (unannotateWrites g edge.tenantId edge) = some g') :
    Mutual g' := by
  obtain ⟨⟨-, hacc⟩, -, rfl⟩ := State.transact_eq_some htx
  have hbatch := unannotateBatch hc.edge_ids edge.tenantId hedge hs (hc.marks edge hedge)
  apply mutual_of h (· = edge.id)
  · intro e he hstay
    rcases hbatch.old_cases hc.edge_ids hacc now he with ⟨w, hw, hold, hnew⟩ | ⟨hrow, -⟩
    · rcases unannotateWrite_cases hw with rfl | ⟨row, -, rfl⟩
      · cases hold
        exact absurd rfl hstay
      · cases hold
        exact ⟨_, hnew _ rfl, ⟨rfl, rfl, ⟨rfl, rfl⟩, rfl⟩,
          fun i hi hne => (mem_conflictList_clear _ _ _).mpr ⟨hi, hne⟩⟩
    · exact ⟨e, hrow, SameEdge.rfl e, fun i hi _ => hi⟩
  · intro e' he' i hi
    refine .inl ?_
    rcases Store.mem_rows_writeAll hbatch.new he' with ⟨he, hunwritten⟩ | ⟨w, hw, hnew⟩
    · refine ⟨e', he, SameEdge.rfl e', fun heq => hunwritten _ List.mem_cons_self rfl heq.symm, hi, ?_⟩
      -- An edge that lists the removed one is of its tenant, so it was written.
      rintro rfl
      obtain ⟨x, hx, hxid, hconf, -⟩ := h e' he _ hi
      obtain rfl := hc.edge_unique hx hedge hxid
      have href : e' ∈ findEdgesReferencing g x.tenantId x.id :=
        mem_findEdgesReferencing.mpr ⟨he, hconf.tenant.symm, .inr hi⟩
      exact hunwritten _ (List.mem_cons_of_mem _ (List.mem_map_of_mem href)) rfl rfl
    · rcases unannotateWrite_cases hw with rfl | ⟨row, hrow, rfl⟩
      · cases hnew
      · cases hnew
        obtain ⟨hi, hne⟩ := (mem_conflictList_clear _ _ _).mp hi
        obtain ⟨hmem, -, -⟩ := mem_findEdgesReferencing.mp hrow
        refine ⟨row, hmem, ⟨rfl, rfl, ⟨rfl, rfl⟩, rfl⟩, fun heq => ?_, hi, hne⟩
        obtain rfl := hc.edge_unique hmem hedge heq
        obtain ⟨-, -, href⟩ := mem_findEdgesReferencing.mp hrow
        have hmark := hc.marks row hmem
        rcases href with href | href
        · rw [hmark.curated hs] at href
          cases href
        · exact hmark.self href

end

omit [DecidableEq V] in
theorem deleteNode_mutual (hc : Consistent g) (h : Mutual g) {node : NodeRow V} {nodeId : Nat} {now : Time}
    (htx : g.transact g.isScoped now [.remove node] ((cascadedEdges g nodeId).map .cascade) = some g') :
    Mutual g' := by
  obtain ⟨⟨-, hacc⟩, -, rfl⟩ := State.transact_eq_some htx
  refine mutual_of_batch h hc.edge_ids (cascadeBatch hc.edge_ids nodeId) hacc rfl ?_ ?_
  · intro w hw e' he'
    obtain ⟨e, -, rfl⟩ := List.mem_map.mp hw
    cases he'
  · intro w hw _ e he hlist
    obtain ⟨x, hx, rfl⟩ := List.mem_map.mp hw
    obtain ⟨hx, hjoins⟩ := List.mem_filter.mp hx
    obtain ⟨y, hy, hyid, hconf, -⟩ := h e he _ hlist
    obtain rfl : y = x := hc.edge_unique hy hx hyid
    refine ⟨.cascade e, List.mem_map_of_mem (List.mem_filter.mpr ⟨he, ?_⟩), rfl, rfl⟩
    rw [EdgeRow.joins, ← hconf.ends.1, ← hconf.ends.2]
    exact hjoins

/-- The edges that a plan deletes. -/
def deletedEdges (plan : RepairPlan) : List Nat :=
  (plan.edges.filter fun p => p.action = .quarantine && p.reason = "not_rediscovered").map
    PlannedEdge.edgeId

omit [DecidableEq V] in
theorem edgeWrite_keeps {now : Time} {p : PlannedEdge} {w : Write (EdgeRow V)}
    (hw : edgeWrite g now p = some w) :
    (∀ e' ∈ w.new, match w.old with
      | none => conflictList e'.properties = []
      | some e => SameEdge e e' ∧ conflictList e'.properties = conflictList e.properties) ∧
    (w.new = none → w.target = p.edgeId ∧ p.action = .quarantine ∧ p.reason = "not_rediscovered") := by
  have hsame : ∀ row : EdgeRow V, SameEdge row (applyExistingEdge row p) ∧
      conflictList (applyExistingEdge row p).properties = conflictList row.properties := by
    intro row
    unfold applyExistingEdge
    split
    · exact ⟨⟨rfl, rfl, ⟨rfl, rfl⟩, rfl⟩, rfl⟩
    · split <;> exact ⟨⟨rfl, rfl, ⟨rfl, rfl⟩, rfl⟩, rfl⟩
  unfold edgeWrite at hw
  split at hw
  · cases hw
    exact ⟨fun e' he' => (by cases he'; rfl), fun hn => (by cases hn)⟩
  · obtain ⟨row, hrow, hw⟩ := Option.map_eq_some_iff.mp hw
    split at hw
    · rename_i hdel
      cases hw
      exact ⟨fun e' he' => (by cases he'), fun _ => ⟨Store.id_of_row hrow, hdel.1, hdel.2⟩⟩
    · simp only at hw
      split at hw
      · cases hw
        exact ⟨fun e' he' => by cases he'; exact hsame row, fun hn => (by cases hn)⟩
      · split at hw <;> cases hw <;>
          exact ⟨fun e' he' => by cases he'; exact hsame row, fun hn => (by cases hn)⟩

theorem cutOver_mutual (hc : Consistent g) (h : Mutual g) {staged : State V}
    {discoveries : List (TargetDiscovery V)} {newId : Nat → Nat} {manifestId : Nat}
    {live : List Nat} {now : Time}
    (hleft : ∀ e ∈ g.edges.rows, e.id ∉ deletedEdges (stage str staged discoveries newId manifestId).plan →
      ∀ i ∈ conflictList e.properties, i ∉ deletedEdges (stage str staged discoveries newId manifestId).plan)
    (hg : cutOver str g live (stage str staged discoveries newId manifestId) now = .ok (some g')) :
    Mutual g' := by
  obtain ⟨nodeWrites, edgeWrites, -, hbatch, -, hmap, htx⟩ := cutOver_ok hc.constraints hg
  obtain ⟨⟨-, hacc⟩, -, rfl⟩ := State.transact_eq_some htx
  refine mutual_of_batch h hc.edge_ids hbatch hacc rfl ?_ ?_
  · intro w hw
    obtain ⟨p, -, hp⟩ := mem_of_map_some hmap hw
    exact (edgeWrite_keeps hp).1
  · intro w hw hnone e he hlist
    obtain ⟨p, hp, hpw⟩ := mem_of_map_some hmap hw
    obtain ⟨htarget, hq, hr⟩ := (edgeWrite_keeps hpw).2 hnone
    have hdel : w.target ∈ deletedEdges (stage str staged discoveries newId manifestId).plan :=
      List.mem_map.mpr ⟨p, List.mem_filter.mpr ⟨hp, by simp [hq, hr]⟩, htarget.symm⟩
    have hgone : e.id ∈ deletedEdges (stage str staged discoveries newId manifestId).plan := by
      by_contra hstay
      exact hleft e he hstay _ hlist hdel
    obtain ⟨q, hqmem, hqid⟩ := List.mem_map.mp hgone
    obtain ⟨hqmem, hqdel⟩ := List.mem_filter.mp hqmem
    rw [Bool.and_eq_true, decide_eq_true_eq, decide_eq_true_eq] at hqdel
    obtain ⟨w', hw', hqw⟩ := exists_of_map_some hmap hqmem
    refine ⟨w', hw', ?_, ?_⟩
    · unfold edgeWrite at hqw
      rw [if_neg (by rw [hqdel.1]; exact EdgeAction.noConfusion)] at hqw
      obtain ⟨row, -, hqw⟩ := Option.map_eq_some_iff.mp hqw
      rw [if_pos hqdel] at hqw
      cases hqw
      rfl
    · exact ((edgeWrite_spec hqw).1).trans hqid

end Writers

/-! ## Runs -/

section Runs
variable [DecidableEq V] (str : Nat → String)

/-- If the step is a cut-over, it deletes no edge that an edge it leaves lists. -/
def LeavesNoListed (g : State V) : Action V → Prop
  | .cutOver staged discoveries newId manifestId _ _ =>
    let gone := deletedEdges (stage str staged discoveries newId manifestId).plan
    ∀ e ∈ g.edges.rows, e.id ∉ gone → ∀ i ∈ conflictList e.properties, i ∉ gone
  | _ => True

instance (g : State V) (a : Action V) : Decidable (LeavesNoListed str g a) := by
  cases a <;> unfold LeavesNoListed <;> infer_instance

variable {str} in
theorem outcome_mutual (hc : Consistent g) (h : Mutual g) {a : Action V}
    (hleft : LeavesNoListed str g a) (hg : outcome str g a = some g') : Mutual g' := by
  cases a with
  | refresh r => exact refresh_mutual hc h hg
  | annotate operator a => exact annotate_mutual hc h (toOption_eq_some hg)
  | unannotate operator s now =>
    obtain ⟨edge, hedge, ht, hs, htx⟩ := unannotateEdge_ok (toOption_eq_some hg)
    exact unannotate_mutual hc h hedge hs (ht ▸ htx)
  | bulkImport operator seen rows dryRun =>
    have hboth : Consistent g' ∧ Mutual g' :=
      bulkImportEdges_induct (P := fun g => Consistent g ∧ Mutual g)
        (fun _ _ _ _ hg hstep =>
          ⟨annotateEdge_consistent hg.1 hstep, annotate_mutual hg.1 hg.2 hstep⟩) ⟨hc, h⟩
        (toOption_eq_some hg)
    exact hboth.2
  | createOrGetNode operator s =>
    obtain ⟨existing, -, htx⟩ := createOrGetNode_ok (toOption_eq_some hg)
    obtain ⟨-, -, rfl⟩ := State.transact_eq_some htx
    exact h
  | deleteNode operator nodeId now =>
    obtain ⟨node, -, -, -, -, -, -, htx⟩ := deleteNode_ok (toOption_eq_some hg)
    exact deleteNode_mutual hc h htx
  | cutOver staged discoveries newId manifestId live now =>
    exact cutOver_mutual hc h hleft (cutOver_of_outcome hg)

/-- In every run whose cut-overs delete no edge that an edge they leave lists, every id in a
`conflicts_with` is that of an edge between the same two nodes, of another kind, that lists
the first one. -/
theorem conflict_markers_mutual (acts : List (Action V))
    (h : (writers str).Along (fun c a => LeavesNoListed str c.state a) (writers str).begin_ acts) :
    ∀ e ∈ ((writers str).after acts).state.edges.rows, ∀ i ∈ conflictList e.properties,
      ∃ f ∈ ((writers str).after acts).state.edges.rows, f.id = i ∧ f.fromNodeId = e.fromNodeId ∧
        f.toNodeId = e.toNodeId ∧ f.kind ≠ e.kind ∧ e.id ∈ conflictList f.properties := by
  have hstep : ∀ (c : Config (State V) Unit) (a : Action V), Consistent c.state ∧ Mutual c.state →
      LeavesNoListed str c.state a →
      Consistent ((writers str).next c a).state ∧ Mutual ((writers str).next c a).state := by
    rintro c a ⟨hc, hm⟩ hleft
    show Consistent ((outcome str c.state a).getD c.state) ∧ Mutual ((outcome str c.state a).getD c.state)
    cases hg : outcome str c.state a with
    | none => exact ⟨hc, hm⟩
    | some g' => exact ⟨outcome_consistent hc hg, outcome_mutual hc hm hleft hg⟩
  have hstart : Consistent (State.empty : State V) ∧ Mutual (State.empty : State V) :=
    ⟨consistent_empty, fun e he => absurd he List.not_mem_nil⟩
  intro e he i hi
  obtain ⟨-, hmutual⟩ := (writers str).along_induct (c := (writers str).begin_) hstep hstart h
  obtain ⟨f, hf, hfi, hconf, hback⟩ := hmutual e he i hi
  exact ⟨f, hf, hfi, hconf.ends.1, hconf.ends.2, hconf.kind, hback⟩

/-- A probe's edge is found, an operator states another kind between the same nodes, and a
cut-over that finds the first edge again keeps both and their marks. -/
theorem conflict_markers_mutual_adopted :
    let alice : Operator :=
      ⟨"alice", none, 7, .operator, .user, false, false, false, false, false, none, none, none, none, none⟩
    let hints : TopologyHints Nat := ⟨[⟨"vm", "a", ∅⟩, ⟨"vm", "b", ∅⟩],
      [⟨"vm", "a", "vm", "b", "runs-on", ∅⟩]⟩
    let found : Reconcile Nat :=
      ⟨7, 1, "k8s", hints, 3, fun key => if key.2 = "a" then 1 else 2, fun _ => 10⟩
    let stated : Annotation := ⟨⟨"a", none⟩, "depends-on", ⟨"b", none⟩, none, none, 5, 11⟩
    let acts : List (Action Nat) := [.refresh found, .annotate alice stated]
    let staged := ((writers Nat.repr).after acts).state
    let acts := acts ++ [.cutOver staged [⟨7, 1, "k8s", 6, some hints, none⟩] (· + 20) 30 [1] 8]
    ((writers Nat.repr).after acts).state.edges.rows.map
        (fun e => (e.id, conflictList e.properties)) = [(10, [11]), (11, [10])] ∧
      ∀ e ∈ ((writers Nat.repr).after acts).state.edges.rows, ∀ i ∈ conflictList e.properties,
        ∃ f ∈ ((writers Nat.repr).after acts).state.edges.rows, f.id = i ∧
          f.fromNodeId = e.fromNodeId ∧ f.toNodeId = e.toNodeId ∧ f.kind ≠ e.kind ∧
          e.id ∈ conflictList f.properties := by
  intro alice hints found stated acts staged acts'
  exact ⟨by decide, conflict_markers_mutual Nat.repr acts' ⟨trivial, trivial, by decide, trivial⟩⟩

/-- The cut-over that does not find the first edge again deletes it and leaves the mark on the
second. -/
theorem conflict_marker_outlives_its_edge :
    ∃ acts : List (Action Nat), ∃ e ∈ ((writers Nat.repr).after acts).state.edges.rows,
      ∃ i ∈ conflictList e.properties,
        ∀ f ∈ ((writers Nat.repr).after acts).state.edges.rows, f.id ≠ i := by
  let alice : Operator :=
    ⟨"alice", none, 7, .operator, .user, false, false, false, false, false, none, none, none, none, none⟩
  let nodes : List (NodeHint Nat) := [⟨"vm", "a", ∅⟩, ⟨"vm", "b", ∅⟩]
  let found : Reconcile Nat :=
    ⟨7, 1, "k8s", ⟨nodes, [⟨"vm", "a", "vm", "b", "runs-on", ∅⟩]⟩, 3,
      fun key => if key.2 = "a" then 1 else 2, fun _ => 10⟩
  let stated : Annotation := ⟨⟨"a", none⟩, "depends-on", ⟨"b", none⟩, none, none, 5, 11⟩
  let before : List (Action Nat) := [.refresh found, .annotate alice stated]
  let staged := ((writers Nat.repr).after before).state
  refine ⟨before ++ [.cutOver staged [⟨7, 1, "k8s", 6, some ⟨nodes, []⟩, none⟩] (· + 20) 30 [1] 8], ?_⟩
  decide

end Runs
end Meho.Graph
