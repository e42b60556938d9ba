import Meho.Graph.Cutover

/- What the cut-over makes of the graph.

Every row of a node is afterwards the row of a planned node, in the scope that the plan
gives it (`node_after`), and the rows and the planned nodes have the same ids
(`planned_ids`). A probe's edge is afterwards one that the plan names
(`edge_after`). So an edge between rows that readers see joins the claims of one target
(`separated_of_applyPlan`). With what the plan decides, that is
`scope_plan_accounts_and_separates`. -/
namespace Meho.Graph
open Meho.Lib Meho.Lib.Assoc Meho.Lib.Journal

variable {V : Type} {str : Nat → String}

section
variable {α β : Type} {f : α → Option β} {l : List α} {ws : List β}

theorem map_of_mapM (h : l.mapM f = some ws) : l.map f = ws.map some := by
  induction l generalizing ws with
  | nil =>
    cases h
    rfl
  | cons a l ih =>
    rw [List.mapM_cons] at h
    obtain ⟨b, hb, h⟩ := Option.bind_eq_some_iff.mp h
    obtain ⟨bs, hbs, h⟩ := Option.bind_eq_some_iff.mp h
    cases h
    rw [List.map_cons, List.map_cons, hb, ih hbs]

theorem mem_of_map_some (h : l.map f = ws.map some) {w : β} (hw : w ∈ ws) :
    ∃ a ∈ l, f a = some w := by
  have hmem : some w ∈ l.map f := h ▸ List.mem_map_of_mem hw
  obtain ⟨a, ha, hfa⟩ := List.mem_map.mp hmem
  exact ⟨a, ha, hfa⟩

theorem exists_of_map_some (h : l.map f = ws.map some) {a : α} (ha : a ∈ l) :
    ∃ w ∈ ws, f a = some w := by
  have hmem : f a ∈ ws.map some := h ▸ List.mem_map_of_mem ha
  obtain ⟨w, hw, hfa⟩ := List.mem_map.mp hmem
  exact ⟨w, hw, hfa.symm⟩

end

/-! ## One planned node, one planned edge -/

section Writes
variable {g : State V} {provenance : String} {now : Time}

theorem applyExistingNode_spec (row : NodeRow V) (p : PlannedNode) :
    (applyExistingNode row p provenance).id = row.id ∧
      (applyExistingNode row p provenance).sourceScope = some p.scope := by
  unfold applyExistingNode
  simp only
  split
  · exact ⟨rfl, rfl⟩
  · split <;> exact ⟨rfl, rfl⟩
  · exact ⟨rfl, rfl⟩

theorem applyExistingEdge_ends (row : EdgeRow V) (p : PlannedEdge) :
    (applyExistingEdge row p).id = row.id ∧ (applyExistingEdge row p).fromNodeId = row.fromNodeId ∧
      (applyExistingEdge row p).toNodeId = row.toNodeId := by
  unfold applyExistingEdge
  split
  · exact ⟨rfl, rfl, rfl⟩
  · split <;> exact ⟨rfl, rfl, rfl⟩

/-- The write for a planned node leaves its row, in the planned scope. -/
theorem nodeWrite_spec [DecidableEq V] {p : PlannedNode} {w : Write (NodeRow V)}
    (h : nodeWrite g provenance now p = some w) :
    w.target = p.nodeId ∧ (w.old.isNone = true ↔ p.action = .publish) ∧
      ∃ r, w.new = some r ∧ r.id = p.nodeId ∧ r.sourceScope = some p.scope := by
  unfold nodeWrite at h
  split at h
  · rename_i hpub
    cases h
    exact ⟨rfl, ⟨fun _ => hpub, fun _ => rfl⟩, _, rfl, rfl, rfl⟩
  · rename_i hpub
    obtain ⟨row, hrow, h⟩ := Option.map_eq_some_iff.mp h
    have hid : row.id = p.nodeId := Store.id_of_row hrow
    have hnewId : (applyExistingNode row p provenance).id = p.nodeId :=
      (applyExistingNode_spec row p).1.trans hid
    simp only at h
    split at h <;> cases h <;>
      exact ⟨hid, ⟨fun hn => (by cases hn), fun hp => absurd hp hpub⟩, _, rfl, hnewId,
        (applyExistingNode_spec row p).2⟩

/-- The write for a planned edge leaves a row with the old row's ends, or with the planned ones,
or none if nobody reported the edge. -/
theorem edgeWrite_spec {p : PlannedEdge} {w : Write (EdgeRow V)}
    (h : edgeWrite g now p = some w) :
    w.target = p.edgeId ∧ (w.old.isNone = true ↔ p.action = .publish) ∧
      ∀ e, w.new = some e → e.id = p.edgeId ∧
        ¬(p.action = .quarantine ∧ p.reason = "not_rediscovered") ∧
        ((p.action = .publish ∧ e.fromNodeId = p.fromNodeId ∧ e.toNodeId = p.toNodeId) ∨
          (p.action ≠ .publish ∧ ∃ row, g.edge p.edgeId = some row ∧
            e.fromNodeId = row.fromNodeId ∧ e.toNodeId = row.toNodeId)) := by
  unfold edgeWrite at h
  split at h
  · rename_i hpub
    cases h
    refine ⟨rfl, ⟨fun _ => hpub, fun _ => rfl⟩, ?_⟩
    intro e he
    cases he
    refine ⟨rfl, fun hq => ?_, .inl ⟨hpub, rfl, rfl⟩⟩
    rw [hpub] at hq
    cases hq.1
  · rename_i hpub
    obtain ⟨row, hrow, h⟩ := Option.map_eq_some_iff.mp h
    have hid : row.id = p.edgeId := Store.id_of_row hrow
    split at h
    · cases h
      exact ⟨hid, ⟨fun hn => (by cases hn), fun hp => absurd hp hpub⟩, fun e he => (by cases he)⟩
    · rename_i hkeep
      -- an edge that is kept keeps its id and both ends
      obtain ⟨hnewId, hfrom, hto⟩ := applyExistingEdge_ends row p
      have hnew : ∀ e, some (applyExistingEdge row p) = some e → e.id = p.edgeId ∧
          ¬(p.action = .quarantine ∧ p.reason = "not_rediscovered") ∧
          ((p.action = .publish ∧ e.fromNodeId = p.fromNodeId ∧ e.toNodeId = p.toNodeId) ∨
            (p.action ≠ .publish ∧ ∃ row, g.edge p.edgeId = some row ∧
              e.fromNodeId = row.fromNodeId ∧ e.toNodeId = row.toNodeId)) := by
        rintro e he
        cases he
        exact ⟨hnewId.trans hid, hkeep, .inr ⟨hpub, row, hrow, hfrom, hto⟩⟩
      simp only at h
      split at h
      · cases h
        exact ⟨hid, ⟨fun hn => (by cases hn), fun hp => absurd hp hpub⟩, hnew⟩
      · split at h <;> cases h <;>
          exact ⟨hid, ⟨fun hn => (by cases hn), fun hp => absurd hp hpub⟩, hnew⟩

/-- A cut-over that is not rolled back did every write. -/
theorem applyPlan_cases [DecidableEq V] {m : StoredManifest} {g' : State V}
    (h : applyPlan str g m now = some g') :
    ∃ nodeWrites edgeWrites,
      m.plan.nodes.map (nodeWrite g ("scope-repair:" ++ str m.id) now) = nodeWrites.map some ∧
        m.plan.edges.map (edgeWrite g now) = edgeWrites.map some ∧
        g'.nodes = g.nodes.writeAll now nodeWrites ∧ g'.edges = g.edges.writeAll now edgeWrites ∧
        (g.nodes.Accepts nodeWrites ∧ g.edges.Accepts edgeWrites) ∧ g'.Constraints := by
  unfold applyPlan at h
  obtain ⟨nodeWrites, hn, h⟩ := Option.bind_eq_some_iff.mp h
  obtain ⟨edgeWrites, he, h⟩ := Option.bind_eq_some_iff.mp h
  obtain ⟨hacc, hc, rfl⟩ := State.transact_eq_some h
  exact ⟨nodeWrites, edgeWrites, map_of_mapM hn, map_of_mapM he, rfl, rfl, hacc, hc⟩

theorem applyPlan_of_cutOver [DecidableEq V] {m : StoredManifest} {live : List Nat} {g' : State V}
    (h : cutOver str g live m now = .ok (some g')) : applyPlan str g m now = some g' := by
  unfold cutOver at h
  rcases hload : lockAndLoad str g live m with err | ok
  · rw [hload] at h
    cases h
  · rw [hload] at h
    exact Except.ok.inj h

end Writes

/-! ## The graph afterwards -/

section After
variable [DecidableEq V] {g g' : State V} {m : StoredManifest} {now : Time}
  {discoveries : List (TargetDiscovery V)} {newId : Nat → Nat}
variable (hold : OldGraph (loadNodes g) (loadEdges g))
  (hplan : m.plan = buildPlan str (loadNodes g) (loadEdges g) discoveries newId)
  (happly : applyPlan str g m now = some g')
include hold hplan happly

/-- Every node row is in the scope of a planned node of its id. -/
theorem node_after {n : NodeRow V} (hn : n ∈ g'.nodes.rows) :
    ∃ q ∈ m.plan.nodes, q.nodeId = n.id ∧ n.sourceScope = some q.scope := by
  obtain ⟨nodeWrites, _, hmap, -, hnodes, -⟩ := applyPlan_cases happly
  have hnew : ∀ w ∈ nodeWrites, ∀ r ∈ w.new, rowId r = w.target := by
    intro w hw r hr
    obtain ⟨q, -, hq⟩ := mem_of_map_some hmap hw
    obtain ⟨htarget, -, r', hr', hid, -⟩ := nodeWrite_spec hq
    rw [hr'] at hr
    cases hr
    exact hid.trans htarget.symm
  rw [hnodes] at hn
  rcases Store.mem_rows_writeAll hnew hn with ⟨hrow, huntouched⟩ | ⟨w, hw, hwn⟩
  · -- The plan decides about every row that was there.
    obtain ⟨p, hp, hpid, -⟩ := buildPlan_old str discoveries newId hold
      (List.mem_map_of_mem hrow)
    have hpmem : p ∈ m.plan.nodes ∧ p.oldNodeId = some n.id := by
      have hmem := hplan ▸ List.mem_filter.mp (hp ▸ List.mem_singleton.mpr rfl)
      exact ⟨hmem.1, of_decide_eq_true hmem.2⟩
    obtain ⟨w, hw, hwp⟩ := exists_of_map_some hmap hpmem.1
    obtain ⟨htarget, hpub, -⟩ := nodeWrite_spec hwp
    have hnotpub : p.action ≠ .publish := by
      rcases buildPlan_node_cases (hplan ▸ hpmem.1) with ⟨_, -, -, -, h⟩ | ⟨h, -⟩
      · exact h
      · rw [hpmem.2] at h
        cases h
    have hsome : w.old.isSome = true := by
      rcases ho : w.old with _ | r
      · exact absurd (hpub.mp (by rw [ho]; rfl)) hnotpub
      · rfl
    exact absurd (htarget.trans hpid) (huntouched w hw hsome)
  · obtain ⟨q, hq, hqw⟩ := mem_of_map_some hmap hw
    obtain ⟨-, -, r, hr, hid, hscope⟩ := nodeWrite_spec hqw
    rw [hwn] at hr
    cases hr
    exact ⟨q, hq, hid.symm, hscope⟩

/-- Planned nodes of one id are one. -/
theorem planned_ids {q q' : PlannedNode} (hq : q ∈ m.plan.nodes) (hq' : q' ∈ m.plan.nodes)
    (hid : q.nodeId = q'.nodeId) : q = q' := by
  obtain ⟨nodeWrites, _, hmap, -, hnodes, -, -, hc⟩ := applyPlan_cases happly
  have hkeep : ∀ w ∈ nodeWrites, w.new.isSome := by
    intro w hw
    obtain ⟨p, -, hp⟩ := mem_of_map_some hmap hw
    obtain ⟨-, -, r, hr, -⟩ := nodeWrite_spec hp
    rw [hr]
    rfl
  -- The ids of the new rows are distinct and none is an old row's, or the commit had failed.
  have hids : (g.nodes.rows.map NodeRow.id ++
      (nodeWrites.filter (·.old.isNone)).map Write.target).Nodup := by
    have hall := hc.node_ids
    rw [hnodes] at hall
    exact (Store.map_rowId_writeAll hkeep) ▸ hall
  have hpublished : ∀ (ps : List PlannedNode) (ws : List (Write (NodeRow V))),
      ps.map (nodeWrite g ("scope-repair:" ++ str m.id) now) = ws.map some →
      (ws.filter (·.old.isNone)).map Write.target =
        (ps.filter (·.action = .publish)).map PlannedNode.nodeId := by
    intro ps
    induction ps with
    | nil =>
      intro ws h
      cases ws with
      | nil => rfl
      | cons w ws => cases h
    | cons p ps ih =>
      intro ws h
      cases ws with
      | nil => cases h
      | cons w ws =>
        obtain ⟨hp, h⟩ := List.cons.inj h
        obtain ⟨htarget, hpub, -⟩ := nodeWrite_spec hp
        by_cases hnone : p.action = .publish
        · rw [List.filter_cons, if_pos (hpub.mpr hnone), List.filter_cons,
            if_pos (decide_eq_true hnone), List.map_cons, List.map_cons, htarget, ih ws h]
        · have hw : ¬ w.old.isNone = true := fun hw => hnone (hpub.mp hw)
          rw [List.filter_cons, if_neg hw, List.filter_cons, if_neg (by simpa using hnone), ih ws h]
  rw [hpublished _ _ hmap] at hids
  obtain ⟨-, hnew, hdisjoint⟩ := List.nodup_append.mp hids
  have hmemOld : ∀ row ∈ loadNodes g, row.id ∈ g.nodes.rows.map NodeRow.id := by
    intro row hrow
    obtain ⟨n, hn, rfl⟩ := List.mem_map.mp hrow
    exact List.mem_map_of_mem hn
  have hmemNew : ∀ p ∈ m.plan.nodes, p.action = .publish →
      p ∈ m.plan.nodes.filter (·.action = .publish) :=
    fun p hp h => List.mem_filter.mpr ⟨hp, decide_eq_true h⟩
  rcases buildPlan_node_cases (hplan ▸ hq) with ⟨row, hrow, hold1, hid1, -⟩ | ⟨-, hpub⟩ <;>
    rcases buildPlan_node_cases (hplan ▸ hq') with ⟨row', hrow', hold2, hid2, -⟩ | ⟨-, hpub'⟩
  · have hone := filter_eq_singleton (buildPlan_old_nodup hold.node_ids) (hplan ▸ hq) hold1
    have hmem : q' ∈ [q] := by
      rw [← hone]
      refine List.mem_filter.mpr ⟨hplan ▸ hq', decide_eq_true ?_⟩
      rw [hold2, ← hid2, ← hid, hid1]
    exact (List.mem_singleton.mp hmem).symm
  · exact absurd (hid1.symm.trans hid) (hdisjoint _ (hmemOld row hrow) _
      (List.mem_map_of_mem (hmemNew q' hq' hpub')))
  · exact absurd (hid2.symm.trans hid.symm) (hdisjoint _ (hmemOld row' hrow') _
      (List.mem_map_of_mem (hmemNew q hq hpub)))
  · exact List.inj_on_of_nodup_map hnew (hmemNew q hq hpub) (hmemNew q' hq' hpub') hid

section
variable {e : EdgeRow V} (he : e ∈ g'.edges.rows) (hauto : e.source ≠ .curated)
include he hauto

/-- An edge that a probe found is one that the plan names and keeps, with its ends. -/
theorem edge_after :
    ∃ p ∈ m.plan.edges, ¬(p.action = .quarantine ∧ p.reason = "not_rediscovered") ∧
      e.fromNodeId = p.fromNodeId ∧ e.toNodeId = p.toNodeId := by
  obtain ⟨_, edgeWrites, -, hmap, -, hedges, -⟩ := applyPlan_cases happly
  have hnew : ∀ w ∈ edgeWrites, ∀ r ∈ w.new, rowId r = w.target := by
    intro w hw r hr
    obtain ⟨p, -, hp⟩ := mem_of_map_some hmap hw
    obtain ⟨htarget, -, hspec⟩ := edgeWrite_spec hp
    exact (hspec r hr).1.trans htarget.symm
  rw [hedges] at he
  rcases Store.mem_rows_writeAll hnew he with ⟨hrow, huntouched⟩ | ⟨w, hw, hwe⟩
  · have hmem : oldEdge e ∈ loadEdges g := List.mem_map_of_mem hrow
    rcases buildPlan_edge str discoveries newId hold hmem with
      ⟨p, hp, hpid, haction⟩ | ⟨-, hcurated, -⟩
    · have hpmem : p ∈ m.plan.edges :=
        hplan ▸ (List.mem_filter.mp (hp ▸ List.mem_singleton.mpr rfl)).1
      obtain ⟨w, hw, hwp⟩ := exists_of_map_some hmap hpmem
      obtain ⟨htarget, hpub, -⟩ := edgeWrite_spec hwp
      have hsome : w.old.isSome = true := by
        rcases ho : w.old with _ | r
        · have hpublish := hpub.mp (by rw [ho]; rfl)
          rcases haction with h | h <;> rw [h] at hpublish <;> cases hpublish
        · rfl
      exact absurd (htarget.trans hpid) (huntouched w hw hsome)
    · exact absurd hcurated hauto
  · obtain ⟨p, hp, hpw⟩ := mem_of_map_some hmap hw
    obtain ⟨-, -, hspec⟩ := edgeWrite_spec hpw
    obtain ⟨-, hkeep, ⟨-, hfrom, hto⟩ | ⟨hnotpub, row, hrow, hfrom, hto⟩⟩ := hspec e hwe
    · exact ⟨p, hp, hkeep, hfrom, hto⟩
    · refine ⟨p, hp, hkeep, ?_⟩
      -- The planned edge of an old row has its ends.
      rcases buildPlan_edge_old (hplan ▸ hp) with ⟨old, hmem, -, hid, hends, -⟩ | ⟨-, hpub⟩
      · obtain ⟨row', hrow', rfl⟩ := List.mem_map.mp hmem
        have hids : (g.edges.rows.map fun r => rowId r).Nodup := by
          have hids := hold.edge_ids
          rw [loadEdges, List.map_map] at hids
          exact hids
        have heq : row' = row := List.inj_on_of_nodup_map hids hrow' (Store.mem_of_row hrow)
          (hid.symm.trans (Store.id_of_row hrow).symm)
        subst heq
        have hf : row'.fromNodeId = p.fromNodeId := congrArg Prod.fst hends
        have ht : row'.toNodeId = p.toNodeId := congrArg (·.2.1) hends
        exact ⟨hfrom.trans hf, hto.trans ht⟩
      · exact absurd hpub hnotpub

theorem separated_of_applyPlan {n n' : NodeRow V} (hn : n ∈ g'.nodes.rows)
    (hn' : n' ∈ g'.nodes.rows) (hfrom : n.id = e.fromNodeId) (hto : n'.id = e.toNodeId)
    (hread : ∀ s ∈ n.sourceScope, s.isLegacy = false)
    (hread' : ∀ s ∈ n'.sourceScope, s.isLegacy = false) :
    ∃ target s s', n.sourceScope = some s ∧ n'.sourceScope = some s' ∧
      ScopeOfTarget target s ∧ ScopeOfTarget target s' := by
  obtain ⟨q, hq, hqid, hqs⟩ := node_after hold hplan happly hn
  obtain ⟨q', hq', hqid', hqs'⟩ := node_after hold hplan happly hn'
  obtain ⟨p, hp, hkeep, hpfrom, hpto⟩ := edge_after hold hplan happly he hauto
  rcases buildPlan_edge_cases (hplan ▸ hp) with
    ⟨-, target, a, ha, b, hb, haid, hbid, hsa, hsb⟩ | ⟨hquarantine, hreason⟩
  · rw [← hplan] at ha hb
    obtain rfl : a = q := planned_ids hold hplan happly ha hq
        (haid.trans (hpfrom.symm.trans (hfrom.symm.trans hqid.symm)))
    obtain rfl : b = q' := planned_ids hold hplan happly hb hq'
        (hbid.trans (hpto.symm.trans (hto.symm.trans hqid'.symm)))
    exact ⟨target, _, _, hqs, hqs', hsa, hsb⟩
  · rcases hreason with hreason | ⟨a, ha, haid, hleg⟩
    · exact absurd ⟨hquarantine, hreason⟩ hkeep
    · rw [← hplan] at ha
      -- The set-aside end is one of the two rows, and readers skip it.
      rcases haid with haid | haid
      · obtain rfl : a = q := planned_ids hold hplan happly ha hq
          (haid.trans (hpfrom.symm.trans (hfrom.symm.trans hqid.symm)))
        rw [hread _ hqs] at hleg
        cases hleg
      · obtain rfl : a = q' := planned_ids hold hplan happly ha hq'
          (haid.trans (hpto.symm.trans (hto.symm.trans hqid'.symm)))
        rw [hread' _ hqs'] at hleg
        cases hleg

end

end After

/-- The plan is the same in whatever order the rows and discoveries are given; it has one
decision for every old node, one row for every claim that is not in conflict, no two rows of
a tenant under one scoped key, and adopts an old edge once, quarantines it once, or leaves it
alone as an operator's edge between readable rows. Once it is applied, a probe's edge
between readable rows joins rows that are global or of one target. -/
theorem scope_plan_accounts_and_separates [DecidableEq V] (str : Nat → String)
    (oldNodes : List OldNode) (oldEdges : List OldEdge) (discoveries : List (TargetDiscovery V))
    (newId : Nat → Nat) (hold : OldGraph oldNodes oldEdges) (hasked : EachAskedOnce discoveries) :
    let plan := buildPlan str oldNodes oldEdges discoveries newId
    (∀ oldNodes' oldEdges' discoveries', oldNodes.Perm oldNodes' → oldEdges.Perm oldEdges' →
        discoveries.Perm discoveries' →
        buildPlan str oldNodes' oldEdges' discoveries' newId = plan) ∧
      (∀ n ∈ oldNodes, ∃ p, plan.nodes.filter (fun p => p.oldNodeId = some n.id) = [p] ∧
        p.nodeId = n.id ∧ p.tenantId = n.tenantId ∧ p.kind = n.kind ∧ p.name = n.name) ∧
      (∀ t key target, Claimed discoveries t key target →
        (∀ target', Claimed discoveries t key target' → target' = target) →
        ∃ p, plan.nodes.filter (fun p => p.tenantId = t ∧ p.key = key) = [p] ∧
          (p.action = .adopt ∨ p.action = .publish)) ∧
      (plan.nodes.map fun p => (p.tenantId, p.key)).Nodup ∧
      (∀ e ∈ oldEdges,
        (∃ p, plan.edges.filter (fun p => p.oldEdgeId = some e.id) = [p] ∧ p.edgeId = e.id ∧
          (p.action = .adopt ∨ p.action = .quarantine)) ∨
        (plan.edges.filter (fun p => p.oldEdgeId = some e.id) = [] ∧ e.source = .curated ∧
          PlannedReadable plan e.fromNodeId ∧ PlannedReadable plan e.toNodeId)) ∧
      (plan.complete = true → ∀ (g g' : State V) (m : StoredManifest) (live : List Nat) (now : Time),
        oldNodes.Perm (loadNodes g) → oldEdges.Perm (loadEdges g) → m.plan = plan →
        cutOver str g live m now = .ok (some g') →
        ∀ e ∈ g'.edges.rows, e.source ≠ .curated → ∀ n ∈ g'.nodes.rows, ∀ n' ∈ g'.nodes.rows,
          n.id = e.fromNodeId → n'.id = e.toNodeId →
          (∀ s ∈ n.sourceScope, s.isLegacy = false) → (∀ s ∈ n'.sourceScope, s.isLegacy = false) →
          ∃ target s s', n.sourceScope = some s ∧ n'.sourceScope = some s' ∧
            ScopeOfTarget target s ∧ ScopeOfTarget target s') := by
  intro plan
  refine ⟨?_, fun n hn => buildPlan_old str discoveries newId hold hn, ?_, buildPlan_keys_nodup hold,
    fun e he => buildPlan_edge str discoveries newId hold he, ?_⟩
  · intro oldNodes' oldEdges' discoveries' hn he hd
    exact (buildPlan_perm newId hold hasked hn he hd).symm
  · intro t key target hclaim hsole
    exact buildPlan_claim hold hclaim hsole
  · intro _ g g' m live now hn he hm hcut e heg hauto n hng n' hng' hfrom hto hread hread'
    have hplan : m.plan = buildPlan str (loadNodes g) (loadEdges g) discoveries newId :=
      hm.trans (buildPlan_perm newId hold hasked hn he (List.Perm.refl _))
    exact separated_of_applyPlan (hold.perm hn he) hplan (applyPlan_of_cutOver hcut) heg hauto hng hng'
      hfrom hto hread hread'

/-- A row of the time before scopes. -/
def unscopedNode (id : Nat) (name : String) : NodeRow Unit :=
  ⟨id, 7, "vm", name, some 5, .auto, ∅, "discovery", 1, some 1, none, none⟩

def unscopedGraph : State Unit :=
  ⟨⟨[unscopedNode 1 "a", unscopedNode 2 "b"], []⟩,
    ⟨[⟨3, 7, 1, 2, "runs-on", .auto, ∅, "discovery", 1, some 1⟩], []⟩, false⟩

/-- Target 5 reports both rows and their edge. -/
def bothReported : List (TargetDiscovery Unit) :=
  [⟨7, 5, "discovery", 2, some ⟨[⟨"vm", "a", ∅⟩, ⟨"vm", "b", ∅⟩],
    [⟨"vm", "a", "vm", "b", "runs-on", ∅⟩]⟩, none⟩]

/-- Every edge is a probe's, and every row is readable. -/
def State.allReadable (g : State Unit) : Bool :=
  g.edges.rows.all (·.source ≠ .curated) &&
    g.nodes.rows.all fun n => n.sourceScope.all fun s => !s.isLegacy

/-- The cut-over to the plan of two rows and their edge: each has one decision, and the edge
joins two rows of one target. -/
theorem scope_plan_accounts_and_separates_pair :
    let m := stage Nat.repr unscopedGraph bothReported (· + 10) 9
    buildPlan Nat.repr (loadNodes unscopedGraph).reverse (loadEdges unscopedGraph) bothReported
        (· + 10) = m.plan ∧
      (∃ p, m.plan.nodes.filter (fun p => p.oldNodeId = some 2) = [p] ∧ p.name = "b") ∧
      (∃ p, m.plan.edges.filter (fun p => p.oldEdgeId = some 3) = [p]) ∧
      ∃ g', cutOver Nat.repr unscopedGraph [5] m 8 = .ok (some g') ∧
        ∀ e ∈ g'.edges.rows, ∀ n ∈ g'.nodes.rows, ∀ n' ∈ g'.nodes.rows,
          n.id = e.fromNodeId → n'.id = e.toNodeId →
          ∃ target s s', n.sourceScope = some s ∧ n'.sourceScope = some s' ∧
            ScopeOfTarget target s ∧ ScopeOfTarget target s' := by
  intro m
  obtain ⟨hperm, hnodes, -, -, hedges, hseparates⟩ := scope_plan_accounts_and_separates Nat.repr
    (loadNodes unscopedGraph) (loadEdges unscopedGraph) bothReported (· + 10)
    ⟨by decide, by decide, by decide, by decide, by decide⟩ (List.nodup_singleton _)
  refine ⟨hperm _ _ _ (List.reverse_perm _).symm (List.Perm.refl _) (List.Perm.refl _), ?_, ?_, ?_⟩
  · obtain ⟨p, hp, -, -, -, hname⟩ := hnodes ⟨2, 7, "vm", "b", .auto, none, true⟩ (by decide)
    exact ⟨p, hp, hname⟩
  · rcases hedges ⟨3, 7, 1, 2, "runs-on", .auto, true⟩ (by decide) with ⟨p, hp, -⟩ | ⟨-, hcurated, -⟩
    · exact ⟨p, hp⟩
    · cases hcurated
  · have hdone : (cutOver Nat.repr unscopedGraph [5] m 8).toOption.join.any State.allReadable =
        true := by decide +kernel
    obtain ⟨g', hg', hreadable⟩ := (Option.any_eq_true _ _).mp hdone
    cases hcut : cutOver Nat.repr unscopedGraph [5] m 8 with
    | error e =>
      rw [hcut] at hg'
      cases hg'
    | ok applied =>
      rw [hcut] at hg'
      obtain rfl := Option.some.inj (Option.join_eq_some_iff.mp hg')
      simp only [State.allReadable, Bool.and_eq_true, List.all_eq_true, decide_eq_true_eq]
        at hreadable
      refine ⟨g', rfl, fun e he n hn n' hn' hfrom hto => ?_⟩
      exact hseparates (by decide +kernel) unscopedGraph g' m [5] 8 (List.Perm.refl _)
        (List.Perm.refl _) rfl hcut e he (hreadable.1 e he) n hn n' hn' hfrom hto
        (fun s hs => by simpa [Option.mem_def.mp hs] using hreadable.2 n hn)
        (fun s hs => by simpa [Option.mem_def.mp hs] using hreadable.2 n' hn')

end Meho.Graph
