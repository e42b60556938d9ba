import Meho.Graph.CutoverSeparates
import Meho.Graph.RefreshFrame
import Meho.Graph.SeedNodes
import Meho.Lib.History
import Meho.Lib.Tx

/- Everything that writes the topology graph, in any order.

A step is one call of a writer, with the clock, the ids that new rows get, and what the
target or the operator says. A call that is refused or rolled back leaves the graph as it
was. A cut-over brings the graph that its manifest was staged on, which may be an older
one; its fingerprint check decides. A bulk import brings the graph that its validating
transaction read.

Each call that goes through is one transaction (`annotateEdge_ok` and so on) of a batch of
writes, and a bulk import is one after the other (`bulkImportEdges_induct`). -/
namespace Meho.Graph
open Meho.Lib Meho.Lib.Assoc Meho.Lib.Journal

variable {V : Type}

/-- One call of one of the graph's writers. -/
inductive Action (V : Type) where
  | refresh (r : Reconcile V)
  | annotate (operator : Operator) (a : Annotation)
  | unannotate (operator : Operator) (s : Selector) (now : Time)
  | bulkImport (operator : Operator) (seen : State V) (rows : List Annotation) (dryRun : Bool)
  | createOrGetNode (operator : Operator) (s : Seed)
  | deleteNode (operator : Operator) (nodeId : Nat) (now : Time)
  | cutOver (staged : State V) (discoveries : List (TargetDiscovery V)) (newId : Nat → Nat)
      (manifestId : Nat) (live : List Nat) (now : Time)

section Step
variable [DecidableEq V] (str : Nat → String)

/-- What the writer answers; `none` when it changes nothing. -/
def outcome (g : State V) : Action V → Option (State V)
  | .refresh r => applyReconcile g r
  | .annotate operator a => (annotateEdge str operator g a).toOption
  | .unannotate operator s now => (unannotateEdge str operator g s now).toOption
  | .bulkImport operator seen rows dryRun =>
    (bulkImportEdges str operator seen g rows dryRun).toOption
  | .createOrGetNode operator s => (createOrGetNode str operator g s).toOption
  | .deleteNode operator nodeId now => (deleteNode operator g nodeId now).toOption
  | .cutOver staged discoveries newId manifestId live now =>
    (cutOver str g live (stage str staged discoveries newId manifestId) now).toOption.join

/-- The graph and its writers. -/
def writers : Machine (State V) (Action V) Unit where
  start := State.empty
  step g a := ((outcome str g a).getD g, [])

end Step

/-! ## The transactions -/

section Transactions
variable {str : Nat → String} {operator : Operator} {g g' : State V}

theorem committed_ok {r : Option (State V)} (h : committed r = .ok g') : r = some g' := by
  cases r with
  | none => cases h
  | some g => exact congrArg some (Except.ok.inj h)

theorem resolveNode_ok {tenantId : Nat} {ref : NodeRef} {n : NodeRow V}
    (h : resolveNode str g tenantId ref = .ok n) : n ∈ g.nodes.rows ∧ n.tenantId = tenantId := by
  have hmem : n ∈ g.nodes.rows.filter fun n => n.tenantId = tenantId && n.name = ref.name &&
      n.notLegacyScope && ref.kind.all (n.kind = ·) := by
    unfold resolveNode pickUniqueNode at h
    simp only at h
    split at h
    · cases h
    · rename_i row hrows
      rw [hrows]
      exact List.mem_singleton.mpr (Except.ok.inj h).symm
    · split at h <;> cases h
  obtain ⟨hn, hp⟩ := List.mem_filter.mp hmem
  simp only [Bool.and_eq_true, decide_eq_true_eq] at hp
  exact ⟨hn, hp.1.1.1⟩

theorem mem_findExistingEdge {tenantId fromId toId : Nat} {kind : String} {e : EdgeRow V}
    (h : findExistingEdge g tenantId fromId toId kind = some e) :
    e ∈ g.edges.rows ∧ e.tenantId = tenantId ∧ e.fromNodeId = fromId ∧ e.toNodeId = toId ∧
      e.kind = kind := by
  have hp := List.find?_some h
  simp only [Bool.and_eq_true, decide_eq_true_eq] at hp
  exact ⟨List.mem_of_find?_eq_some h, hp.1.1.1, hp.1.1.2, hp.1.2, hp.2⟩

variable [DecidableEq V]

theorem annotateEdge_ok {a : Annotation} (h : annotateEdge str operator g a = .ok g') :
    ∃ fromNode ∈ g.nodes.rows, ∃ toNode ∈ g.nodes.rows,
      g.transact g.isScoped a.now [] (annotatePlan operator g a fromNode toNode).writes = some g' := by
  obtain ⟨plan, hplan, h⟩ := except_bind_eq_ok h
  obtain ⟨_, -, hplan⟩ := except_bind_eq_ok hplan
  obtain ⟨fromNode, hfrom, hplan⟩ := except_bind_eq_ok hplan
  obtain ⟨toNode, hto, hplan⟩ := except_bind_eq_ok hplan
  obtain rfl : annotatePlan operator g a fromNode toNode = plan := Except.ok.inj hplan
  exact ⟨fromNode, (resolveNode_ok hfrom).1, toNode, (resolveNode_ok hto).1, committed_ok h⟩

theorem unannotateEdge_ok {s : Selector} {now : Time}
    (h : unannotateEdge str operator g s now = .ok g') :
    ∃ edge ∈ g.edges.rows, edge.tenantId = operator.tenantId ∧ edge.source = .curated ∧
      g.transact g.isScoped now [] (unannotateWrites g operator.tenantId edge) = some g' := by
  obtain ⟨_, -, h⟩ := except_bind_eq_ok h
  obtain ⟨edge, hedge, h⟩ := except_bind_eq_ok h
  have hmem : edge ∈ g.edges.rows ∧ edge.tenantId = operator.tenantId := by
    unfold resolveUnannotateTarget at hedge
    split at hedge
    · split at hedge
      · cases hedge
      · rename_i e hrow
        split at hedge
        · cases hedge
        · rename_i ht
          split at hedge
          · cases hedge
          · obtain rfl : e = edge := Except.ok.inj hedge
            exact ⟨Store.mem_of_row hrow, not_not.mp ht⟩
    · split at hedge
      · obtain ⟨_, -, hedge⟩ := except_bind_eq_ok hedge
        obtain ⟨_, -, hedge⟩ := except_bind_eq_ok hedge
        obtain ⟨_, -, hedge⟩ := except_bind_eq_ok hedge
        split at hedge
        · rename_i e hfind
          obtain rfl : e = edge := Except.ok.inj hedge
          obtain ⟨he, ht, -⟩ := mem_findExistingEdge hfind
          exact ⟨he, ht⟩
        · cases hedge
      · cases hedge
  split at h
  · cases h
  · rename_i hs
    exact ⟨edge, hmem.1, hmem.2, not_not.mp hs, committed_ok h⟩

/-- What every annotation keeps, a bulk import keeps. -/
theorem bulkImportEdges_induct {P : State V → Prop} {seen : State V} {rows : List Annotation}
    {dryRun : Bool}
    (hrow : ∀ g a g', a ∈ rows → P g → annotateEdge str operator g a = .ok g' → P g')
    (h0 : P g) (h : bulkImportEdges str operator seen g rows dryRun = .ok g') : P g' := by
  have hfold : ∀ (rs : List Annotation) (g : State V), (∀ a ∈ rs, a ∈ rows) → P g →
      rs.foldlM (annotateEdge str operator) g = .ok g' → P g' := by
    intro rs
    induction rs with
    | nil =>
      intro g _ hg h
      exact Except.ok.inj h ▸ hg
    | cons a rs ih =>
      intro g hrs hg h
      rw [List.foldlM_cons] at h
      obtain ⟨g₁, h₁, h⟩ := except_bind_eq_ok h
      obtain ⟨ha, hrs⟩ := List.forall_mem_cons.mp hrs
      exact ih g₁ hrs (hrow g a g₁ ha hg h₁) h
  unfold bulkImportEdges at h
  split at h
  · exact Except.ok.inj h ▸ h0
  · cases h
  · split at h
    · exact Except.ok.inj h ▸ h0
    · exact hfold _ g (fun a ha => ha) h0 h

theorem createOrGetNode_ok {s : Seed} (h : createOrGetNode str operator g s = .ok g') :
    ∃ existing, (∀ n, existing = some n → n ∈ g.nodes.rows ∧ n.tenantId = operator.tenantId) ∧
      g.transact g.isScoped s.now [seedWrite operator g.isScoped s existing] [] = some g' := by
  obtain ⟨_, -, h⟩ := except_bind_eq_ok h
  obtain ⟨existing, hfind, h⟩ := except_bind_eq_ok h
  refine ⟨existing, ?_, committed_ok h⟩
  unfold findSeedTarget at hfind
  simp only at hfind
  split at hfind
  · cases hfind
  · rintro n hn
    obtain ⟨hmem, hp⟩ := List.mem_filter.mp (List.mem_of_mem_head? ((Except.ok.inj hfind).trans hn))
    simp only [Bool.and_eq_true, decide_eq_true_eq] at hp
    exact ⟨hmem, hp.1.1.1⟩

omit [DecidableEq V] in
theorem deleteNode_ok {nodeId : Nat} {now : Time} (h : deleteNode operator g nodeId now = .ok g') :
    ∃ node ∈ g.nodes.rows, node.id = nodeId ∧ node.tenantId = operator.tenantId ∧
      node.source = .curated ∧ node.targetId = none ∧
      liveEdgeIds g operator.tenantId nodeId = [] ∧
      g.transact g.isScoped now [.remove node] ((cascadedEdges g nodeId).map .cascade) = some g' := by
  unfold deleteNode at h
  split at h
  · cases h
  · rename_i node hfind
    have hp := List.find?_some hfind
    simp only [Bool.and_eq_true, decide_eq_true_eq] at hp
    split at h
    · cases h
    · rename_i hown
      rw [not_or, not_not, Option.not_isSome_iff_eq_none] at hown
      split at h
      · cases h
      · rename_i hlive
        exact ⟨node, List.mem_of_find?_eq_some hfind, hp.1, hp.2, hown.1, hown.2, hlive,
          committed_ok h⟩

end Transactions
end Meho.Graph
