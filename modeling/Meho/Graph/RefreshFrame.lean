import Meho.Graph.RefreshWrites

/- What a refresh leaves alone.

After a refresh every row is still there (`node_after`, `edge_after`): as it was, seen
again, or retired. An operator's row is at most seen or unseen, a retired node is a probe's
and the target's own, and a retired probe edge joined nodes that the target owns or names. -/
namespace Meho.Graph
open Meho.Lib.Assoc Meho.Lib.Journal

variable {V : Type} [DecidableEq V] {r : Reconcile V} {g g' : State V}

/-! ## One row afterwards -/

/-- What a refresh that is not rolled back did. -/
theorem applyReconcile_eq_some (h : applyReconcile g r = some g') :
    let pass := reconcileNodes r g
    let edgeWrites := reconcileEdges r g pass.liveKeyToId pass.allKeyToId
    (g.nodes.Accepts pass.writes ∧ g.edges.Accepts edgeWrites) ∧ g'.Constraints ∧
      g'.nodes = g.nodes.writeAll r.now pass.writes ∧
      g'.edges = g.edges.writeAll r.now edgeWrites ∧ g'.isScoped = g.isScoped := by
  obtain ⟨hacc, hc, rfl⟩ := State.transact_eq_some h
  exact ⟨hacc, hc, rfl, rfl, rfl⟩

theorem nodeWrite_new_isSome {w : Write (NodeRow V)} (h : w ∈ (reconcileNodes r g).writes) :
    w.new.isSome := by
  rcases nodeWrite_cases h with ⟨hint, -, rfl⟩ | ⟨n, -, hint, -, -, rfl⟩ | ⟨n, -, rfl⟩
  · rfl
  · rw [refreshNode_new]
    rfl
  · rfl

theorem edgeWrite_new_isSome {live all : List (NameKey × Nat)} {w : Write (EdgeRow V)}
    (h : w ∈ reconcileEdges r g live all) : w.new.isSome := by
  rcases edgeWrite_cases h with ⟨hint, _, _, -, -, rfl⟩ | ⟨e, hint, -, rfl⟩ | ⟨e, -, -, rfl⟩
  · rfl
  · rw [refreshEdge_new]
    rfl
  · rfl

section
variable (h : applyReconcile g r = some g')
include h

theorem node_ids_of_applyReconcile : (g.nodes.rows.map NodeRow.id).Nodup := by
  obtain ⟨-, hc, hnodes, -⟩ := applyReconcile_eq_some h
  have hids := hc.node_ids
  rw [hnodes] at hids
  have happ : ((g.nodes.writeAll r.now (reconcileNodes r g).writes).rows.map fun n => rowId n) = _ :=
    Store.map_rowId_writeAll fun w hw => nodeWrite_new_isSome hw
  exact (List.nodup_append.mp (happ ▸ hids)).1

theorem edge_ids_of_applyReconcile : (g.edges.rows.map EdgeRow.id).Nodup := by
  obtain ⟨-, hc, -, hedges, -⟩ := applyReconcile_eq_some h
  have hids := hc.edge_ids
  rw [hedges] at hids
  have happ : ((g.edges.writeAll r.now (reconcileEdges r g (reconcileNodes r g).liveKeyToId
      (reconcileNodes r g).allKeyToId)).rows.map fun e => rowId e) = _ :=
    Store.map_rowId_writeAll fun w hw => edgeWrite_new_isSome hw
  exact (List.nodup_append.mp (happ ▸ hids)).1

theorem node_after_refresh {n : NodeRow V} (hn : n ∈ g.nodes.rows) :
    ∃ n' ∈ g'.nodes.rows, n'.id = n.id ∧ (n' = n ∨
      (n ∈ loadReconcileCandidateNodes r g ∧ ∃ hint ∈ r.hints.nodes, hint.nodeKey = n.nodeKey ∧
        (refreshNode r n hint).new = some n') ∨
      (Missing r g n ∧ n' = { n with lastSeen := none })) := by
  obtain ⟨hacc, -, hnodes, -⟩ := applyReconcile_eq_some h
  have hids := node_ids_of_applyReconcile h
  have hrow : g.nodes.row n.id = some n := Store.row_of_mem hids hn
  have hmem : ∀ {n'}, (g.nodes.writeAll r.now (reconcileNodes r g).writes).row n.id = some n' →
      n' ∈ g'.nodes.rows ∧ n'.id = n.id := by
    intro n' hn'
    exact ⟨hnodes ▸ Store.mem_of_row hn', Store.id_of_row hn'⟩
  rcases (nodeBatch hids).row_cases hids hacc.1 r.now n.id with ⟨w, hw, ht, hnew⟩ | ⟨-, hsame⟩
  · rcases nodeWrite_cases hw with ⟨hint, -, rfl⟩ | ⟨m, hm, hint, hh, hkey, rfl⟩ | ⟨m, hm, rfl⟩
    · -- An id that is taken is not given to a new row.
      have hnone := hacc.1.2 n.id (List.mem_filterMap.mpr ⟨_, hw, congrArg some ht⟩)
      rw [hrow] at hnone
      cases hnone
    · have hmn : m = n := List.inj_on_of_nodup_map hids (mem_candidates hm).1 hn
        ((refreshNode_target m hint).symm.trans ht)
      subst hmn
      obtain ⟨n', hn'⟩ := Option.isSome_iff_exists.mp (nodeWrite_new_isSome hw)
      obtain ⟨hin, hid⟩ := hmem (hnew.trans hn')
      exact ⟨n', hin, hid, .inr (.inl ⟨hm, hint, hh, hkey, hn'⟩)⟩
    · have hmn : m = n := List.inj_on_of_nodup_map hids (mem_candidates hm.1).1 hn ht
      subst hmn
      obtain ⟨hin, hid⟩ := hmem hnew
      exact ⟨_, hin, hid, .inr (.inr ⟨hm, rfl⟩)⟩
  · obtain ⟨hin, hid⟩ := hmem (hsame.trans hrow)
    exact ⟨n, hin, hid, .inl rfl⟩

theorem edge_after_refresh {e : EdgeRow V} (he : e ∈ g.edges.rows) :
    ∃ e' ∈ g'.edges.rows, e'.id = e.id ∧ (e' = e ∨
      (∃ hint, (refreshEdge r e hint).new = some e') ∨
      (Loaded r g (reconcileNodes r g).allKeyToId e ∧ e' = { e with lastSeen := none })) := by
  obtain ⟨hacc, -, -, hedges, -⟩ := applyReconcile_eq_some h
  have hids := edge_ids_of_applyReconcile h
  have hrow : g.edges.row e.id = some e := Store.row_of_mem hids he
  have hmem : ∀ {e'}, (g.edges.writeAll r.now (reconcileEdges r g (reconcileNodes r g).liveKeyToId
      (reconcileNodes r g).allKeyToId)).row e.id = some e' → e' ∈ g'.edges.rows ∧ e'.id = e.id := by
    intro e' he'
    exact ⟨hedges ▸ Store.mem_of_row he', Store.id_of_row he'⟩
  rcases (edgeBatch hids).row_cases hids hacc.2 r.now e.id with ⟨w, hw, ht, hnew⟩ | ⟨-, hsame⟩
  · rcases edgeWrite_cases hw with ⟨hint, _, _, -, -, rfl⟩ | ⟨m, hint, hm, rfl⟩ | ⟨m, hm, hlive, rfl⟩
    · have hnone := hacc.2.2 e.id (List.mem_filterMap.mpr ⟨_, hw, congrArg some ht⟩)
      rw [hrow] at hnone
      cases hnone
    · have hme : m = e := List.inj_on_of_nodup_map hids hm.1 he
        ((refreshEdge_target m hint).symm.trans ht)
      subst hme
      obtain ⟨e', he'⟩ := Option.isSome_iff_exists.mp (edgeWrite_new_isSome hw)
      obtain ⟨hin, hid⟩ := hmem (hnew.trans he')
      exact ⟨e', hin, hid, .inr (.inl ⟨hint, he'⟩)⟩
    · have hme : m = e := List.inj_on_of_nodup_map hids hm.1 he ht
      subst hme
      obtain ⟨hin, hid⟩ := hmem hnew
      exact ⟨_, hin, hid, .inr (.inr ⟨hm, rfl⟩)⟩
  · obtain ⟨hin, hid⟩ := hmem (hsame.trans hrow)
    exact ⟨e, hin, hid, .inl rfl⟩

end

/-! ## The frame -/

/-- The snapshot has a node of this kind and name. -/
def Reconcile.Names (r : Reconcile V) (n : NodeRow V) : Prop :=
  n.nodeKey ∈ r.hints.nodes.map NodeHint.nodeKey

instance (r : Reconcile V) (n : NodeRow V) : Decidable (r.Names n) :=
  inferInstanceAs (Decidable (n.nodeKey ∈ r.hints.nodes.map NodeHint.nodeKey))

omit [DecidableEq V] in
/-- No row has two owners. -/
theorem owner_unique {isScoped : Bool} {n : NodeRow V} {t t' : Nat}
    (h : ownedByTarget isScoped t n) (h' : ownedByTarget isScoped t' n) : t = t' := by
  cases isScoped with
  | false =>
    simp only [ownedByTarget, Bool.not_false, if_true, decide_eq_true_eq] at h h'
    exact Option.some.inj (h.symm.trans h')
  | true =>
    simp only [ownedByTarget, Bool.not_true, if_false, Bool.or_eq_true, Bool.and_eq_true,
      decide_eq_true_eq, Bool.false_eq_true] at h h'
    rcases h with h | ⟨h, ht⟩ <;> rcases h' with h' | ⟨h', ht'⟩
    · simpa using h.symm.trans h'
    · cases h.symm.trans h'
    · cases h.symm.trans h'
    · exact Option.some.inj (ht.symm.trans ht')

omit [DecidableEq V] in
/-- In scoped mode a reported candidate is in the target's scope or a global target node. -/
theorem scope_of_reported {n : NodeRow V} (hs : g.isScoped) (hn : n ∈ loadReconcileCandidateNodes r g) :
    n.sourceScope = some (.target r.targetId) ∨ n.sourceScope = some .global ∧ n.kind = "target" := by
  rw [loadReconcileCandidateNodes, if_pos hs] at hn
  obtain ⟨-, hp⟩ := of_decide_eq_true (List.mem_filter.mp hn).2
  rcases hp with hp | hp | ⟨hp, -, hk⟩
  · obtain ⟨hint, -, heq⟩ := List.mem_map.mp hp
    obtain ⟨hscope, hkey⟩ := Prod.mk.inj heq
    have hkind : hint.kind = n.kind := (Prod.mk.inj hkey).1
    rw [← hscope, ← hkind, scopeForDiscoveredNode]
    split
    · rename_i ht
      exact .inr ⟨rfl, ht⟩
    · exact .inl rfl
  · exact .inl hp
  · exact .inr ⟨hp, hk⟩

/-- An end of an edge that the pass loaded is named by the snapshot or owned by the target. -/
theorem end_of_loaded (h : applyReconcile g r = some g') {n : NodeRow V} (hn : n ∈ g.nodes.rows)
    (hall : n.id ∈ (reconcileNodes r g).allKeyToId.map Prod.snd) :
    r.Names n ∨ ownedByTarget g.isScoped r.targetId n := by
  have hids := node_ids_of_applyReconcile h
  rcases mem_allKeyToId hall with ⟨m, hm, hid⟩ | ⟨hint, hw, hid⟩
  · have hmn : m = n := List.inj_on_of_nodup_map hids (mem_candidates hm).1 hn hid
    exact hmn ▸ (mem_candidates hm).2.2
  · -- A node that was just inserted has a new id.
    obtain ⟨hacc, -⟩ := applyReconcile_eq_some h
    have hnone := hacc.1.2 n.id (List.mem_filterMap.mpr ⟨_, hw, congrArg some hid⟩)
    rw [show g.nodes.row n.id = some n from Store.row_of_mem hids hn] at hnone
    cases hnone

section Committed
variable (h : applyReconcile g r = some g')
include h

theorem node_frame {n : NodeRow V} (hn : n ∈ g.nodes.rows) : ∃ n' ∈ g'.nodes.rows, n'.id = n.id ∧
    (n.source = .curated →
      n' = { n with lastSeen := n'.lastSeen } ∧ (n.lastSeen.isSome → n'.lastSeen.isSome)) ∧
    (n.lastSeen.isSome → n'.lastSeen = none →
      n.source = .auto ∧ n.tenantId = r.tenantId ∧ ownedByTarget g.isScoped r.targetId n) ∧
    (g.isScoped → n' ≠ n → n.sourceScope = some (.target r.targetId) ∨
      n.sourceScope = some .global ∧ (n.kind = "target" ∧ r.Names n ∨
        n.targetId = some r.targetId ∧ n' = { n with lastSeen := none })) := by
  obtain ⟨n', hn', hid, hcase⟩ := node_after_refresh h hn
  refine ⟨n', hn', hid, ?_⟩
  rcases hcase with rfl | ⟨hcand, hint, hhint, hkey, hnew⟩ | ⟨⟨hcand, hmissing, hauto, howned, hlive⟩, rfl⟩
  · exact ⟨fun _ => ⟨rfl, id⟩, fun hlive hgone => by simp [hgone] at hlive, fun _ hne => absurd rfl hne⟩
  · rw [refreshNode_new] at hnew
    have hnew := Option.some.inj hnew
    have hseen : n'.lastSeen.isSome := by
      rw [← hnew]
      split <;> rfl
    refine ⟨fun hs => ?_, fun _ hgone => by simp [hgone] at hseen, fun hs _ => ?_⟩
    · rw [if_pos hs] at hnew
      exact ⟨by rw [← hnew], fun _ => hseen⟩
    · refine (scope_of_reported hs hcand).imp_right fun hglobal => ⟨hglobal.1, .inl ⟨hglobal.2, ?_⟩⟩
      exact List.mem_map.mpr ⟨hint, hhint, hkey⟩
  · refine ⟨fun hs => ?_, fun _ _ => ⟨hauto, (mem_candidates hcand).2.1, howned⟩, fun hs _ => ?_⟩
    · rw [hs] at hauto
      cases hauto
    · simp only [ownedByTarget, hs, Bool.not_true, Bool.false_eq_true, if_false, Bool.or_eq_true,
        Bool.and_eq_true, decide_eq_true_eq] at howned
      exact howned.imp_right fun hglobal => ⟨hglobal.1, .inr ⟨hglobal.2, rfl⟩⟩

theorem edge_frame {e : EdgeRow V} (he : e ∈ g.edges.rows) : ∃ e' ∈ g'.edges.rows, e'.id = e.id ∧
    (e.source = .curated → e' = { e with lastSeen := e'.lastSeen }) ∧
    (e.source = .auto → e.lastSeen.isSome → e'.lastSeen = none →
      ∀ a ∈ g.nodes.rows, ∀ b ∈ g.nodes.rows, a.id = e.fromNodeId → b.id = e.toNodeId →
        ∀ t, t ≠ r.targetId → ownedByTarget g.isScoped t a → ownedByTarget g.isScoped t b →
          r.Names a ∧ r.Names b) := by
  obtain ⟨e', he', hid, hcase⟩ := edge_after_refresh h he
  refine ⟨e', he', hid, ?_⟩
  rcases hcase with rfl | ⟨hint, hnew⟩ | ⟨⟨-, -, hfrom, hto⟩, rfl⟩
  · exact ⟨fun _ => rfl, fun _ hlive hgone => by simp [hgone] at hlive⟩
  · rw [refreshEdge_new] at hnew
    have hnew := Option.some.inj hnew
    have hseen : e'.lastSeen.isSome := by
      rw [← hnew]
      split <;> rfl
    refine ⟨fun hs => ?_, fun _ _ hgone => by simp [hgone] at hseen⟩
    rw [if_pos hs] at hnew
    rw [← hnew]
  · refine ⟨fun _ => rfl, ?_⟩
    rintro - - - a ha b hb hae hbe t hne hta htb
    have hend : ∀ n ∈ g.nodes.rows, n.id ∈ (reconcileNodes r g).allKeyToId.map Prod.snd →
        ownedByTarget g.isScoped t n → r.Names n := by
      intro n hn hall ht
      exact (end_of_loaded h hn hall).resolve_right fun howned => hne (owner_unique ht howned)
    exact ⟨hend a ha (hae ▸ hfrom) hta, hend b hb (hbe ▸ hto) htb⟩

end Committed

/-- For every graph, mode and snapshot, a refresh of a target leaves an operator's node or edge
as it was but for `last_seen`, and such a node live; it retires only a probe's nodes, of its
tenant, that the target owns; in scoped mode it changes no node outside the target's scope but
global target nodes that the snapshot names and global nodes that the target itself saw last,
which it only retires; and it retires no probe's edge between nodes of another target unless
the snapshot names both. -/
theorem refresh_touches_only_its_own (g : State V) (r : Reconcile V) :
    let g' := (applyReconcile g r).getD g
    (∀ n ∈ g.nodes.rows, ∃ n' ∈ g'.nodes.rows, n'.id = n.id ∧
      (n.source = .curated →
        n' = { n with lastSeen := n'.lastSeen } ∧ (n.lastSeen.isSome → n'.lastSeen.isSome)) ∧
      (n.lastSeen.isSome → n'.lastSeen = none →
        n.source = .auto ∧ n.tenantId = r.tenantId ∧ ownedByTarget g.isScoped r.targetId n) ∧
      (g.isScoped → n' ≠ n → n.sourceScope = some (.target r.targetId) ∨
        n.sourceScope = some .global ∧ (n.kind = "target" ∧ r.Names n ∨
          n.targetId = some r.targetId ∧ n' = { n with lastSeen := none }))) ∧
    (∀ e ∈ g.edges.rows, ∃ e' ∈ g'.edges.rows, e'.id = e.id ∧
      (e.source = .curated → e' = { e with lastSeen := e'.lastSeen }) ∧
      (e.source = .auto → e.lastSeen.isSome → e'.lastSeen = none →
        ∀ a ∈ g.nodes.rows, ∀ b ∈ g.nodes.rows, a.id = e.fromNodeId → b.id = e.toNodeId →
          ∀ t, t ≠ r.targetId → ownedByTarget g.isScoped t a → ownedByTarget g.isScoped t b →
            r.Names a ∧ r.Names b)) := by
  intro g'
  rcases h : applyReconcile g r with _ | g''
  · have hg : g' = g := by simp [g', h]
    rw [hg]
    refine ⟨fun n hn => ⟨n, hn, rfl, ?_⟩, fun e he => ⟨e, he, rfl, fun _ => rfl, ?_⟩⟩
    · exact ⟨fun _ => ⟨rfl, id⟩, fun hlive hgone => by simp [hgone] at hlive, fun _ hne => absurd rfl hne⟩
    · intro _ hlive hgone
      simp [hgone] at hlive
  · have hg : g' = g'' := by simp [g', h]
    rw [hg]
    exact ⟨fun n hn => node_frame h hn, fun e he => edge_frame h he⟩

/-- The target's own node is global, and goes when the target no longer reports it. An edge
between two nodes of target 2 goes when target 1 reports both and not the edge. -/
theorem refresh_touches_other_rows :
    (∃ (g : State Nat) (r : Reconcile Nat) (n : NodeRow Nat), g.isScoped = true ∧
      n ∈ g.nodes.rows ∧ n.sourceScope ≠ some (.target r.targetId) ∧ ¬ r.Names n ∧
      (applyReconcile g r).map (·.nodes.rows) = some [{ n with lastSeen := none }] ∧
      n.lastSeen = some 1) ∧
    (∃ (g : State Nat) (r : Reconcile Nat) (a b : NodeRow Nat) (e : EdgeRow Nat),
      g.nodes.rows = [a, b] ∧ g.edges.rows = [e] ∧ e.source = .auto ∧
      e.fromNodeId = a.id ∧ e.toNodeId = b.id ∧
      ownedByTarget g.isScoped 2 a ∧ ownedByTarget g.isScoped 2 b ∧ r.targetId = 1 ∧
      (applyReconcile g r).map (·.edges.rows) = some [{ e with lastSeen := none }] ∧
      e.lastSeen = some 1) := by
  let own : NodeRow Nat :=
    ⟨10, 7, "target", "t1", some 1, .auto, ∅, "k8s", 0, some 1, some .global, none⟩
  let a : NodeRow Nat := ⟨11, 7, "vm", "a", some 2, .auto, ∅, "k8s", 0, some 1, none, none⟩
  let b : NodeRow Nat := ⟨12, 7, "vm", "b", some 2, .auto, ∅, "k8s", 0, some 1, none, none⟩
  let e : EdgeRow Nat := ⟨20, 7, 11, 12, "runs-on", .auto, ∅, "k8s", 0, some 1⟩
  refine ⟨⟨⟨⟨[own], []⟩, ⟨[], []⟩, true⟩,
      ⟨7, 1, "k8s", ⟨[], []⟩, 5, fun _ => 0, fun _ => 0⟩, own, rfl, ?_⟩,
    ⟨⟨⟨[a, b], []⟩, ⟨[e], []⟩, false⟩,
      ⟨7, 1, "k8s", ⟨[⟨"vm", "a", ∅⟩, ⟨"vm", "b", ∅⟩], []⟩, 5, fun _ => 0, fun _ => 0⟩,
      a, b, e, rfl, rfl, ?_⟩⟩
  · exact ⟨by decide, by decide, by decide, by decide, rfl⟩
  · exact ⟨rfl, rfl, rfl, by decide, by decide, rfl, by decide, rfl⟩

end Meho.Graph
