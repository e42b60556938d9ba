import Meho.Graph.ScopePlanOrder

/- What the scope plan decides.

One tenant first: every old row has its decision (`planned_old`), no two planned rows have
one scoped key (`planned_keys_nodup`), and every claim that is not in conflict has its row
(`exists_planned_claim`). The pass over the discovered edges keeps an invariant
(`PassInv`): the ends of what it planned are distinct, and every planned edge joins the
rows of two claims of one target. Then all tenants: a plan is the plans of the tenants,
and rows of different tenants do not meet (`planTenants_split`). -/
namespace Meho.Graph
open Meho.Lib Meho.Lib.Assoc

variable {V : Type} {str : Nat → String}

/-- Where the values tell the elements that have one apart, the element of a value is alone. -/
theorem filter_eq_singleton {α β : Type} [DecidableEq β] {f : α → Option β} {l : List α}
    (h : (l.filterMap f).Nodup) {a : α} {b : β} (ha : a ∈ l) (hb : f a = some b) :
    l.filter (fun x => f x = some b) = [a] := by
  induction l with
  | nil => cases ha
  | cons x l ih =>
    have hnone : ∀ y : α, f y = some b → b ∉ l.filterMap f → y ∈ l → False := by
      intro y hy hnot hmem
      exact hnot (List.mem_filterMap.mpr ⟨y, hmem, hy⟩)
    by_cases hx : f x = some b
    · rw [List.filterMap_cons, hx] at h
      have hnot : b ∉ l.filterMap f := (List.nodup_cons.mp h).1
      have hempty : l.filter (fun y => f y = some b) = [] := by
        rw [List.filter_eq_nil_iff]
        intro y hy hyb
        exact hnone y (of_decide_eq_true hyb) hnot hy
      obtain rfl | ha := List.mem_cons.mp ha
      · rw [List.filter_cons, if_pos (decide_eq_true hx), hempty]
      · exact (hnone a hb hnot ha).elim
    · obtain rfl | ha := List.mem_cons.mp ha
      · exact absurd hb hx
      · have hl : (l.filterMap f).Nodup := by
          rw [List.filterMap_cons] at h
          split at h
          · exact h
          · exact (List.nodup_cons.mp h).2
        rw [List.filter_cons, if_neg (by simpa using hx), ih hl ha]

/-! ## Claims -/

/-- Target `target` of tenant `t` reports a node under this scoped key. -/
def Claimed (discoveries : List (TargetDiscovery V)) (t : Nat) (key : NodeKey) (target : Nat) :
    Prop :=
  ∃ d ∈ discoveries, d.tenantId = t ∧ d.targetId = target ∧ ∃ hints, d.hints = some hints ∧
    ∃ n ∈ hints.nodes, key = claimKey target n.kind n.name

theorem mem_claimsOf {d : TargetDiscovery V} {key : NodeKey} {target : Nat} :
    (key, target) ∈ claimsOf d ↔ d.targetId = target ∧ ∃ hints, d.hints = some hints ∧
      ∃ n ∈ hints.nodes, key = claimKey target n.kind n.name := by
  unfold claimsOf
  split
  · rename_i hnone
    simp [hnone]
  · rename_i hints hsome
    simp only [hsome, List.mem_map, Option.some.injEq, exists_eq_left', Prod.mk.injEq]
    constructor
    · rintro ⟨n, hn, hkey, rfl⟩
      exact ⟨rfl, n, hn, hkey.symm⟩
    · rintro ⟨rfl, n, hn, rfl⟩
      exact ⟨n, hn, rfl, rfl⟩

theorem claimKey_scope_not_legacy {target : Nat} {kind name : String} :
    (claimKey target kind name).1.isLegacy = false := not_isLegacy_scopeForDiscoveredNode _ _

section Stage
variable {t : Nat} {ds : List (TargetDiscovery V)}

variable {key : NodeKey} {target : Nat}

theorem mem_claims :
    (key, target) ∈ (tenantStage str t ds).claims ↔ ∃ d ∈ ds, (key, target) ∈ claimsOf d := by
  simp [tenantStage]

theorem mem_claims_tenant {discoveries : List (TargetDiscovery V)} :
    (key, target) ∈ (tenantStage str t (discoveries.filter (·.tenantId = t))).claims ↔
      Claimed discoveries t key target := by
  rw [mem_claims]
  constructor
  · rintro ⟨d, hd, hclaim⟩
    obtain ⟨htarget, hhints⟩ := mem_claimsOf.mp hclaim
    exact ⟨d, (List.mem_filter.mp hd).1, of_decide_eq_true (List.mem_filter.mp hd).2, htarget, hhints⟩
  · rintro ⟨d, hd, ht, htarget, hhints⟩
    exact ⟨d, List.mem_filter.mpr ⟨hd, decide_eq_true ht⟩, mem_claimsOf.mpr ⟨htarget, hhints⟩⟩

variable {stage : TenantStage V}

theorem mem_owners : target ∈ stage.owners key ↔ (key, target) ∈ stage.claims := by
  simp [TenantStage.owners]

theorem mem_keys : key ∈ stage.keys ↔ ∃ target, (key, target) ∈ stage.claims := by
  simp [TenantStage.keys]

theorem keys_nodup : stage.keys.Nodup :=
  ((perm_orderBy _ _).nodup_iff).mpr (List.nodup_dedup _)

theorem mem_scopesFor {kind name : String} {scope : Scope} :
    scope ∈ stage.scopesFor kind name ↔ ∃ target, ((scope, kind, name), target) ∈ stage.claims := by
  simp only [TenantStage.scopesFor, mem_orderBy, List.mem_dedup, List.mem_map, List.mem_filter,
    decide_eq_true_eq]
  constructor
  · rintro ⟨⟨⟨s, k, n⟩, target⟩, ⟨hmem, heq⟩, rfl⟩
    cases heq
    exact ⟨target, hmem⟩
  · rintro ⟨target, hmem⟩
    exact ⟨_, ⟨hmem, rfl⟩, rfl⟩

theorem not_isConflict (h : ∀ target', (key, target') ∈ stage.claims → target' = target) :
    stage.isConflict key = false := by
  have hle : (stage.owners key).length ≤ [target].length := by
    refine (List.subperm_of_subset (List.nodup_dedup _) ?_).length_le
    intro x hx
    exact List.mem_singleton.mpr (h x (mem_owners.mp hx))
  simpa [TenantStage.isConflict] using hle

end Stage

/-! ## The nodes of one tenant -/

section Nodes
variable {t : Nat} {stage : TenantStage V} {oldNodes : List OldNode} {newId : Nat → Nat} {used : Nat}

/-- A stage whose claims are in scopes of targets. -/
def NoLegacyClaims (stage : TenantStage V) : Prop :=
  ∀ key target, (key, target) ∈ stage.claims → key.1.isLegacy = false

theorem tenantStage_noLegacyClaims (ds : List (TargetDiscovery V)) :
    NoLegacyClaims (tenantStage str t ds) := by
  intro key target h
  obtain ⟨d, -, hd⟩ := mem_claims.mp h
  obtain ⟨-, _, -, n, -, rfl⟩ := mem_claimsOf.mp hd
  exact claimKey_scope_not_legacy

/-- How a row is decided, by the scopes that claim it. -/
theorem oldNodeDecision_cases (row : OldNode) (stage : TenantStage V) :
    (∃ scope, stage.scopesFor row.kind row.name = [scope] ∧
        stage.isConflict (scope, row.kind, row.name) = false ∧
        oldNodeDecision row stage =
          ⟨.adopt, scope, "rediscovered", some (scope, row.kind, row.name)⟩) ∨
      (∃ reason, oldNodeDecision row stage = ⟨.legacy, .legacy row.id, reason, none⟩) ∨
      (stage.scopesFor row.kind row.name = [] ∧
        ∃ reason, oldNodeDecision row stage = ⟨.keep, .global, reason, none⟩) := by
  unfold oldNodeDecision
  split
  · rename_i hnil
    split
    · exact .inr (.inr ⟨hnil, _, rfl⟩)
    · split
      · exact .inr (.inr ⟨hnil, _, rfl⟩)
      · exact .inr (.inl ⟨_, rfl⟩)
  · rename_i scope hscope
    split
    · exact .inr (.inl ⟨_, rfl⟩)
    · rename_i hconflict
      exact .inl ⟨scope, hscope, by simpa using hconflict, rfl⟩
  · exact .inr (.inl ⟨_, rfl⟩)

variable {key : NodeKey}

theorem decision_key {row : OldNode} (h : (oldNodeDecision row stage).key = some key) :
    key = (key.1, row.kind, row.name) ∧ stage.scopesFor row.kind row.name = [key.1] ∧
      stage.isConflict key = false ∧ (oldNodeDecision row stage).scope = key.1 := by
  rcases oldNodeDecision_cases row stage with
    ⟨scope, hscope, hconflict, hdec⟩ | ⟨reason, hdec⟩ | ⟨-, reason, hdec⟩
  · rw [hdec] at h ⊢
    cases h
    exact ⟨rfl, hscope, hconflict, rfl⟩
  · rw [hdec] at h
    cases h
  · rw [hdec] at h
    cases h

theorem decision_of_key (hstage : NoLegacyClaims stage) {row : OldNode} {target : Nat}
    (hclaim : (key, target) ∈ stage.claims)
    (hkey : ((oldNodeDecision row stage).scope, row.kind, row.name) = key) :
    (oldNodeDecision row stage).key = some key := by
  have hscope : key.1 ∈ stage.scopesFor row.kind row.name := by
    rw [mem_scopesFor]
    exact ⟨target, by rw [← hkey] at hclaim ⊢; exact hclaim⟩
  rcases oldNodeDecision_cases row stage with
    ⟨scope, -, -, hdec⟩ | ⟨reason, hdec⟩ | ⟨hnone, reason, -⟩
  · rw [hdec] at hkey ⊢
    exact congrArg some hkey
  · rw [hdec] at hkey
    have hleg := hstage key target hclaim
    rw [← hkey] at hleg
    cases hleg
  · rw [hnone] at hscope
    cases hscope

/-- The rows in the order of the pass. -/
abbrev sortedRows (oldNodes : List OldNode) : List OldNode :=
  orderBy (fun r : OldNode => toLex (r.kind, r.name)) oldNodes

/-- The rows that claims adopted. -/
abbrev adoptedIds (stage : TenantStage V) (oldNodes : List OldNode) : List (NodeKey × Nat) :=
  ofPairs <| (sortedRows oldNodes).filterMap fun row =>
    (oldNodeDecision row stage).key.map fun key => (key, row.id)

/-- The claims that get a new row. -/
abbrev newKeys (stage : TenantStage V) (oldNodes : List OldNode) : List NodeKey :=
  stage.keys.filter fun key => (get (adoptedIds stage oldNodes) key).isNone && !stage.isConflict key

theorem get_adoptedIds_isSome :
    (get (adoptedIds stage oldNodes) key).isSome ↔
      ∃ row ∈ oldNodes, (oldNodeDecision row stage).key = some key := by
  rw [Option.isSome_iff_ne_none, ne_eq, get_eq_none, not_not, mem_keys_ofPairs, List.mem_map]
  constructor
  · rintro ⟨e, he, rfl⟩
    obtain ⟨row, hrow, hmap⟩ := List.mem_filterMap.mp he
    obtain ⟨key, hkey, rfl⟩ := Option.map_eq_some_iff.mp hmap
    exact ⟨row, (mem_orderBy _).mp hrow, hkey⟩
  · rintro ⟨row, hrow, hkey⟩
    refine ⟨(key, row.id), List.mem_filterMap.mpr ⟨row, (mem_orderBy _).mpr hrow, ?_⟩, rfl⟩
    rw [hkey]
    rfl

theorem get_adoptedIds {id : Nat} (h : get (adoptedIds stage oldNodes) key = some id) :
    ∃ row ∈ oldNodes, (oldNodeDecision row stage).key = some key ∧ row.id = id := by
  obtain ⟨row, hrow, hmap⟩ := List.mem_filterMap.mp (mem_of_mem_ofPairs (mem_of_get h))
  obtain ⟨key', hkey, heq⟩ := Option.map_eq_some_iff.mp hmap
  cases heq
  exact ⟨row, (mem_orderBy _).mp hrow, hkey, rfl⟩

/-- A planned node is an old row's, or a new row for a claim without one. -/
theorem mem_planned {p : PlannedNode} :
    p ∈ (planNodes t oldNodes stage newId used).planned ↔
      (∃ row ∈ oldNodes, p = plannedRow t stage row) ∨
        ∃ key i, (key, i) ∈ (newKeys stage oldNodes).zipIdx used ∧
          p = publishedNode t stage key (newId i) := by
  simp only [planNodes, List.mem_append, List.mem_map, mem_orderBy, eq_comm (b := p)]
  refine or_congr Iff.rfl ?_
  constructor
  · rintro ⟨e, ⟨⟨key, i⟩, hmem, rfl⟩, rfl⟩
    exact ⟨key, i, hmem, rfl⟩
  · rintro ⟨key, i, hmem, rfl⟩
    exact ⟨_, ⟨(key, i), hmem, rfl⟩, rfl⟩

theorem planned_tenant {p : PlannedNode} (h : p ∈ (planNodes t oldNodes stage newId used).planned) :
    p.tenantId = t := by
  rcases mem_planned.mp h with ⟨row, -, rfl⟩ | ⟨key, i, -, rfl⟩ <;> rfl

/-- Exactly the old rows have a decision about an old row. -/
theorem planned_old :
    (planNodes t oldNodes stage newId used).planned.filterMap PlannedNode.oldNodeId =
      (sortedRows oldNodes).map OldNode.id := by
  have hnew : ∀ l : List (NodeKey × Nat),
      (l.map fun p => publishedNode t stage p.1 p.2).filterMap PlannedNode.oldNodeId = [] := by
    intro l
    rw [List.filterMap_map, List.filterMap_eq_nil_iff]
    intro p _
    rfl
  have hold : ∀ l : List OldNode,
      (l.map (plannedRow t stage)).filterMap PlannedNode.oldNodeId = l.map OldNode.id := by
    intro l
    rw [List.filterMap_map, ← List.filterMap_eq_map]
    rfl
  simp only [planNodes, List.filterMap_append]
  rw [hold, hnew, List.append_nil]

/-- No two planned nodes have one scoped key. -/
theorem planned_keys_nodup (hstage : NoLegacyClaims stage)
    (hnames : (oldNodes.map fun n => toLex (n.kind, n.name)).Nodup) :
    ((planNodes t oldNodes stage newId used).planned.map PlannedNode.key).Nodup := by
  have hrows : ((sortedRows oldNodes).map fun n => toLex (n.kind, n.name)).Nodup :=
    ((perm_orderBy _ _).map _).nodup_iff.mpr hnames
  have hpub : ∀ l : List (NodeKey × Nat),
      (l.map fun p => publishedNode t stage p.1 p.2).map PlannedNode.key = l.map Prod.fst := by
    intro l
    rw [List.map_map]
    rfl
  have hfst : (((newKeys stage oldNodes).zipIdx used).map fun p => (p.1, newId p.2)).map Prod.fst =
      newKeys stage oldNodes := by
    rw [List.map_map]
    exact List.zipIdx_map_fst _ _
  simp only [planNodes, List.map_append]
  rw [hpub, hfst]
  refine List.nodup_append.mpr ⟨?_, keys_nodup.filter _, ?_⟩
  · -- Old rows differ in kind or name already.
    refine List.Nodup.of_map (fun key : NodeKey => toLex (key.2.1, key.2.2)) ?_
    rw [List.map_map, List.map_map]
    exact hrows
  · rintro key hkey key' hkey' rfl
    obtain ⟨p, hp, rfl⟩ := List.mem_map.mp hkey
    obtain ⟨row, hrow, rfl⟩ := List.mem_map.mp hp
    obtain ⟨hkeys, hnew⟩ := List.mem_filter.mp hkey'
    obtain ⟨target, hclaim⟩ := mem_keys.mp hkeys
    have hdec := decision_of_key hstage hclaim rfl
    have hsome := get_adoptedIds_isSome.mpr ⟨row, (mem_orderBy _).mp hrow, hdec⟩
    rw [Bool.and_eq_true, Option.isNone_iff_eq_none] at hnew
    rw [hnew.1] at hsome
    cases hsome

theorem exists_planned_claim {target : Nat} (hclaim : (key, target) ∈ stage.claims)
    (hconflict : stage.isConflict key = false) :
    ∃ p ∈ (planNodes t oldNodes stage newId used).planned, p.key = key ∧
      (p.action = .adopt ∨ p.action = .publish) := by
  by_cases hsome : (get (adoptedIds stage oldNodes) key).isSome
  · obtain ⟨row, hrow, hdec⟩ := get_adoptedIds_isSome.mp hsome
    refine ⟨plannedRow t stage row, mem_planned.mpr (.inl ⟨row, hrow, rfl⟩), ?_, .inl ?_⟩
    · obtain ⟨hkey, -, -, hscope⟩ := decision_key hdec
      rw [hkey]
      exact Prod.ext hscope rfl
    · rcases oldNodeDecision_cases row stage with
        ⟨scope, -, -, h⟩ | ⟨reason, h⟩ | ⟨-, reason, h⟩
      · exact congrArg NodeDecision.action h
      · rw [h] at hdec
        cases hdec
      · rw [h] at hdec
        cases hdec
  · have hmem : key ∈ newKeys stage oldNodes := by
      refine List.mem_filter.mpr ⟨mem_keys.mpr ⟨target, hclaim⟩, ?_⟩
      rw [hconflict]
      simpa using hsome
    obtain ⟨⟨key', i⟩, hzip, hfst⟩ : ∃ e ∈ (newKeys stage oldNodes).zipIdx used, e.1 = key := by
      rw [← List.zipIdx_map_fst used (newKeys stage oldNodes)] at hmem
      obtain ⟨e, he, heq⟩ := List.mem_map.mp hmem
      exact ⟨e, he, heq⟩
    obtain rfl : key' = key := hfst
    exact ⟨_, mem_planned.mpr (.inr ⟨key', i, hzip, rfl⟩), rfl, .inr rfl⟩

theorem planned_of_finalId {id : Nat}
    (h : get (planNodes t oldNodes stage newId used).finalId key = some id) :
    ∃ p ∈ (planNodes t oldNodes stage newId used).planned, p.nodeId = id ∧ p.key = key := by
  rw [planNodes, get_append, Option.or_eq_some_iff] at h
  rcases h with h | ⟨-, h⟩
  · obtain ⟨row, hrow, hdec, rfl⟩ := get_adoptedIds h
    obtain ⟨hkey, -, -, hscope⟩ := decision_key hdec
    refine ⟨plannedRow t stage row, mem_planned.mpr (.inl ⟨row, hrow, rfl⟩), rfl, ?_⟩
    rw [hkey]
    exact Prod.ext hscope rfl
  · obtain ⟨⟨key', i⟩, hmem, heq⟩ := List.mem_map.mp (mem_of_get h)
    cases heq
    exact ⟨_, mem_planned.mpr (.inr ⟨_, i, hmem, rfl⟩), rfl, rfl⟩

end Nodes

/-! ## The edges of one tenant -/

section Edges
variable {t : Nat} {stage : TenantStage V} {finalId : List (NodeKey × Nat)}
  {oldByEnds : List (EdgeEnds × OldEdge)} {newId : Nat → Nat}

/-- An old edge with the ends and kind of the planned one, or a new edge. -/
def AdoptedOrNew (oldByEnds : List (EdgeEnds × OldEdge)) (newId : Nat → Nat) (p : PlannedEdge) : Prop :=
  (∃ old, get oldByEnds p.ends = some old ∧ p.action = .adopt ∧ p.edgeId = old.id ∧
      p.oldEdgeId = some old.id ∧ p.source = old.source) ∨
    (get oldByEnds p.ends = none ∧ p.action = .publish ∧ (∃ i, p.edgeId = newId i) ∧
      p.oldEdgeId = none ∧ p.source = .auto)

/-- The edge joins the rows that two claims of one target ended up as. -/
def JoinsClaims (stage : TenantStage V) (finalId : List (NodeKey × Nat)) (p : PlannedEdge) : Prop :=
  ∃ target fromKey toKey, (fromKey, target) ∈ stage.claims ∧ (toKey, target) ∈ stage.claims ∧
    get finalId fromKey = some p.fromNodeId ∧ get finalId toKey = some p.toNodeId

/-- What the pass over the discovered edges keeps. -/
structure PassInv (t : Nat) (stage : TenantStage V) (finalId : List (NodeKey × Nat))
    (oldByEnds : List (EdgeEnds × OldEdge)) (newId : Nat → Nat) (pass : EdgePass) : Prop where
  seen : ∀ ends, ends ∈ pass.seen ↔ ends ∈ pass.planned.map PlannedEdge.ends
  distinct : (pass.planned.map PlannedEdge.ends).Nodup
  tenant : ∀ p ∈ pass.planned, p.tenantId = t
  joins : ∀ p ∈ pass.planned, JoinsClaims stage finalId p
  row : ∀ p ∈ pass.planned, AdoptedOrNew oldByEnds newId p
  observed : ∀ p ∈ pass.planned, p.observedAt.isSome

variable {pass : EdgePass}

theorem PassInv.snoc (h : PassInv t stage finalId oldByEnds newId pass) {p : PlannedEdge}
    {ends : EdgeEnds} {problems : List PlanProblem} {used : Nat} (hends : p.ends = ends)
    (hnew : ends ∉ pass.seen) (ht : p.tenantId = t) (hj : JoinsClaims stage finalId p)
    (hr : AdoptedOrNew oldByEnds newId p) (ho : p.observedAt.isSome) :
    PassInv t stage finalId oldByEnds newId
      ⟨ends :: pass.seen, pass.planned ++ [p], problems, used⟩ := by
  subst hends
  have hall : ∀ {P : PlannedEdge → Prop}, (∀ q ∈ pass.planned, P q) → P p →
      ∀ q ∈ pass.planned ++ [p], P q := by
    intro P hP hp q hq
    rcases List.mem_append.mp hq with hq | hq
    · exact hP q hq
    · exact List.mem_singleton.mp hq ▸ hp
  refine ⟨?_, ?_, hall h.tenant ht, hall h.joins hj, hall h.row hr, hall h.observed ho⟩
  · intro ends
    rw [List.mem_cons, h.seen, List.map_append, List.mem_append, or_comm]
    simp
  · rw [List.map_append, List.nodup_append]
    refine ⟨h.distinct, List.nodup_singleton _, ?_⟩
    rintro ends hends _ hp rfl
    rw [List.map_singleton, List.mem_singleton] at hp
    exact hnew ((h.seen _).mpr (hp ▸ hends))

theorem PassInv.step (h : PassInv t stage finalId oldByEnds newId pass) {d : TargetDiscovery V}
    {e : EdgeHint V} (hd : ∀ c ∈ claimsOf d, c ∈ stage.claims) :
    PassInv t stage finalId oldByEnds newId
      (planDiscoveredEdge t finalId oldByEnds newId pass d e) := by
  -- an end of the edge must be among the nodes that its own target reports
  have hown : ∀ key, key ∈ (claimsOf d).map Prod.fst → (key, d.targetId) ∈ stage.claims := by
    intro key hkey
    obtain ⟨⟨key', target⟩, hmem, rfl⟩ := List.mem_map.mp hkey
    obtain rfl : d.targetId = target := (mem_claimsOf.mp hmem).1
    exact hd _ hmem
  unfold planDiscoveredEdge
  simp only
  split
  · exact ⟨h.seen, h.distinct, h.tenant, h.joins, h.row, h.observed⟩
  · rename_i hin
    rw [not_or, not_not, not_not] at hin
    split
    · rename_i fromId toId hfrom hto
      split
      · exact h
      · rename_i hseen
        split
        -- the edge was there before, or it is new
        · rename_i old hold
          refine h.snoc ?_ ?_ ?_ ⟨_, _, _, hown _ hin.1, hown _ hin.2, ?_, ?_⟩ ?_ ?_
          · rfl
          · exact hseen
          · rfl
          · exact hfrom
          · exact hto
          · exact .inl ⟨old, hold, rfl, rfl, rfl, rfl⟩
          · rfl
        · rename_i hold
          refine h.snoc ?_ ?_ ?_ ⟨_, _, _, hown _ hin.1, hown _ hin.2, ?_, ?_⟩ ?_ ?_
          · rfl
          · exact hseen
          · rfl
          · exact hfrom
          · exact hto
          · exact .inr ⟨hold, rfl, ⟨_, rfl⟩, rfl, rfl⟩
          · rfl
    · exact h

theorem claims_of_discoveredEdges {ds : List (TargetDiscovery V)}
    {de : TargetDiscovery V × EdgeHint V} (h : de ∈ discoveredEdges (tenantStage str t ds)) :
    ∀ c ∈ claimsOf de.1, c ∈ (tenantStage str t ds).claims := by
  obtain ⟨entry, hentry, hde⟩ := List.mem_flatMap.mp h
  have hfst : de.1 = entry.2 := by
    split at hde
    · obtain ⟨e, -, rfl⟩ := List.mem_map.mp hde
      rfl
    · cases hde
  have hmem : entry.2 ∈ ds := by
    obtain ⟨d, hd, rfl⟩ := List.mem_map.mp (mem_of_mem_ofPairs ((mem_orderBy _).mp hentry))
    exact (mem_orderBy _).mp (List.mem_filter.mp hd).1
  rintro ⟨key, target⟩ hc
  exact mem_claims.mpr ⟨entry.2, hmem, hfst ▸ hc⟩

theorem passInv_planDiscoveredEdges {ds : List (TargetDiscovery V)} (used : Nat) :
    PassInv t (tenantStage str t ds) finalId oldByEnds newId
      (planDiscoveredEdges t finalId oldByEnds newId (tenantStage str t ds) used) := by
  have haux : ∀ (l : List (TargetDiscovery V × EdgeHint V)) (pass : EdgePass),
      (∀ de ∈ l, ∀ c ∈ claimsOf de.1, c ∈ (tenantStage str t ds).claims) →
      PassInv t (tenantStage str t ds) finalId oldByEnds newId pass →
      PassInv t (tenantStage str t ds) finalId oldByEnds newId (l.foldl
        (fun pass de => planDiscoveredEdge t finalId oldByEnds newId pass de.1 de.2) pass) := by
    intro l
    induction l with
    | nil => intro pass _ h; exact h
    | cons de l ih =>
      intro pass hl h
      obtain ⟨hde, hl⟩ := List.forall_mem_cons.mp hl
      exact ih _ hl (h.step hde)
  refine haux _ _ (fun de hde => claims_of_discoveredEdges hde) ?_
  exact ⟨by simp, List.nodup_nil, by simp, by simp, by simp, by simp⟩

variable {oldEdges : List OldEdge}

/-- The old edge that the dictionary has for these ends. -/
theorem get_oldByEnds {ends : EdgeEnds} {old : OldEdge}
    (h : get (ofPairs (oldEdges.map fun e => (e.ends, e))) ends = some old) :
    old ∈ oldEdges ∧ old.ends = ends := by
  obtain ⟨e, he, heq⟩ := List.mem_map.mp (mem_of_mem_ofPairs (mem_of_get h))
  cases heq
  exact ⟨he, rfl⟩

theorem PassInv.adopted_nodup
    (h : PassInv t stage finalId (ofPairs (oldEdges.map fun e => (e.ends, e))) newId pass)
    (hids : (oldEdges.map OldEdge.id).Nodup) :
    (pass.planned.filterMap PlannedEdge.oldEdgeId).Nodup := by
  have hdistinct := List.pairwise_map.mp h.distinct
  rw [List.Nodup, List.pairwise_filterMap]
  refine hdistinct.imp_of_mem ?_
  rintro p q hp hq hne i hi j hj rfl
  have hold : ∀ r ∈ pass.planned, r.oldEdgeId = some i →
      ∃ old ∈ oldEdges, old.id = i ∧ old.ends = r.ends := by
    intro r hr hri
    rcases h.row r hr with ⟨old, hget, -, -, hid, -⟩ | ⟨-, -, -, hnone, -⟩
    · obtain ⟨hmem, hends⟩ := get_oldByEnds hget
      exact ⟨old, hmem, Option.some.inj (hid.symm.trans hri), hends⟩
    · rw [hnone] at hri
      cases hri
  obtain ⟨old, hmem, hid, hends⟩ := hold p hp hi
  obtain ⟨old', hmem', hid', hends'⟩ := hold q hq hj
  have heq : old = old' := List.inj_on_of_nodup_map hids hmem hmem' (hid.trans hid'.symm)
  exact hne (hends.symm.trans ((congrArg OldEdge.ends heq).trans hends'))

theorem mem_planLeftoverEdges {nodes : List PlannedNode} {adopted : List Nat} {p : PlannedEdge} :
    p ∈ planLeftoverEdges t oldEdges nodes adopted ↔
      ∃ e ∈ oldEdges, e.id ∉ adopted ∧
        ∃ reason, quarantineReason e (scopeOf nodes) = some reason ∧ p = quarantined t e reason := by
  simp only [planLeftoverEdges, List.mem_filterMap, mem_orderBy]
  constructor
  · rintro ⟨e, he, h⟩
    split at h
    · cases h
    · rename_i hnot
      obtain ⟨reason, hreason, rfl⟩ := Option.map_eq_some_iff.mp h
      exact ⟨e, he, hnot, reason, hreason, rfl⟩
  · rintro ⟨e, he, hnot, reason, hreason, rfl⟩
    refine ⟨e, he, ?_⟩
    rw [if_neg hnot, hreason]
    rfl

/-- No old edge is quarantined twice. -/
theorem leftover_nodup {nodes : List PlannedNode} {adopted : List Nat}
    (hids : (oldEdges.map OldEdge.id).Nodup) :
    ((planLeftoverEdges t oldEdges nodes adopted).filterMap PlannedEdge.oldEdgeId).Nodup := by
  have hsub : ∀ l : List OldEdge, ((l.filterMap fun e =>
      if e.id ∈ adopted then none
      else (quarantineReason e (scopeOf nodes)).map (quarantined t e)).filterMap
        PlannedEdge.oldEdgeId).Sublist (l.map OldEdge.id) := by
    intro l
    induction l with
    | nil => exact List.Sublist.refl _
    | cons e l ih =>
      rw [List.filterMap_cons, List.map_cons]
      split
      · exact ih.cons _
      · rename_i p hp
        have hid : p.oldEdgeId = some e.id := by
          split at hp
          · cases hp
          · obtain ⟨reason, -, rfl⟩ := Option.map_eq_some_iff.mp hp
            rfl
        rw [List.filterMap_cons, hid]
        exact ih.cons_cons _
  exact (hsub _).nodup (((perm_orderBy _ _).map _).nodup_iff.mpr hids)

end Edges

/-! ## What becomes of an old edge -/

section Leftover
variable {t : Nat} {stage : TenantStage V} {oldNodes : List OldNode} {newId : Nat → Nat} {used : Nat}

theorem planned_filter_old :
    (planNodes t oldNodes stage newId used).planned.filter (·.oldNodeId.isSome) =
      (sortedRows oldNodes).map (plannedRow t stage) := by
  have hold : ∀ l : List OldNode,
      (l.map (plannedRow t stage)).filter (·.oldNodeId.isSome) = l.map (plannedRow t stage) := by
    intro l
    rw [List.filter_eq_self]
    intro p hp
    obtain ⟨row, -, rfl⟩ := List.mem_map.mp hp
    rfl
  have hnew : ∀ l : List (NodeKey × Nat),
      (l.map fun p => publishedNode t stage p.1 p.2).filter (·.oldNodeId.isSome) = [] := by
    intro l
    rw [List.filter_eq_nil_iff]
    intro p hp
    obtain ⟨e, -, rfl⟩ := List.mem_map.mp hp
    exact Bool.false_ne_true
  simp only [planNodes, List.filter_append]
  rw [hold, hnew, List.append_nil]

/-- The scope that the plan gives an old row. -/
theorem get_scopeOf (hids : (oldNodes.map OldNode.id).Nodup) {row : OldNode} (hrow : row ∈ oldNodes) :
    get (scopeOf (planNodes t oldNodes stage newId used).planned) row.id =
      some (plannedRow t stage row).scope := by
  have hkeys : (((sortedRows oldNodes).map (plannedRow t stage)).map
      fun n => (n.nodeId, n.scope)).map Prod.fst = (sortedRows oldNodes).map OldNode.id := by
    simp only [List.map_map]
    rfl
  have hnodup : ((sortedRows oldNodes).map OldNode.id).Nodup :=
    ((perm_orderBy _ _).map _).nodup_iff.mpr hids
  rw [scopeOf, planned_filter_old, ofPairs_eq (hkeys ▸ hnodup)]
  refine get_of_mem (hkeys ▸ hnodup) ?_
  exact List.mem_map_of_mem (List.mem_map_of_mem ((mem_orderBy _).mpr hrow))

/-- An edge that need not leave: an operator stated it, and no end is set aside. -/
theorem quarantineReason_eq_none {e : OldEdge} {scopes : List (Nat × Scope)} :
    quarantineReason e scopes = none ↔
      e.source = .curated ∧ (∀ s ∈ get scopes e.fromNodeId, s.isLegacy = false) ∧
        ∀ s ∈ get scopes e.toNodeId, s.isLegacy = false := by
  have hany : ∀ o : Option Scope, o.any Scope.isLegacy = false ↔ ∀ s ∈ o, s.isLegacy = false := by
    intro o
    cases o <;> simp
  unfold quarantineReason
  simp only
  split
  · rename_i h
    rw [Bool.or_eq_true] at h
    refine ⟨fun hn => (by cases hn), fun hreadable => ?_⟩
    rw [← hany, ← hany] at hreadable
    simp [hreadable.2.1, hreadable.2.2] at h
  · rename_i h
    simp only [Bool.or_eq_true, not_or, Bool.not_eq_true] at h
    rw [← hany, ← hany]
    by_cases hc : e.source = .curated <;> simp [hc, h.1, h.2]

end Leftover

/-! ## All tenants -/

section Tenants
variable {oldNodes : List OldNode} {oldEdges : List OldEdge} {discoveries : List (TargetDiscovery V)}
  {newId : Nat → Nat}

variable (str oldNodes oldEdges discoveries newId) in
/-- The plan of one tenant of many, `used` ids into the supply. -/
abbrev planOf (used t : Nat) : RepairPlan :=
  (planTenant str t (oldNodes.filter (·.tenantId = t)) (oldEdges.filter (·.tenantId = t))
    (discoveries.filter (·.tenantId = t)) newId used).1

variable (str discoveries) in
abbrev stageOf (t : Nat) : TenantStage V := tenantStage str t (discoveries.filter (·.tenantId = t))

variable (str oldNodes discoveries newId) in
abbrev nodePlanOf (used t : Nat) : NodePlan :=
  planNodes t (oldNodes.filter (·.tenantId = t)) (stageOf str discoveries t) newId used

variable (oldEdges) in
abbrev oldByEndsOf (t : Nat) : List (EdgeEnds × OldEdge) :=
  ofPairs ((oldEdges.filter (·.tenantId = t)).map fun e => (e.ends, e))

variable (str oldNodes oldEdges discoveries newId) in
/-- The pass over the discovered edges of one tenant keeps its invariant. -/
theorem passInv_planOf (used t : Nat) :
    PassInv t (stageOf str discoveries t) (nodePlanOf str oldNodes discoveries newId used t).finalId
      (oldByEndsOf oldEdges t) newId
      (planDiscoveredEdges t (nodePlanOf str oldNodes discoveries newId used t).finalId
        (oldByEndsOf oldEdges t) newId (stageOf str discoveries t)
        (nodePlanOf str oldNodes discoveries newId used t).used) :=
  passInv_planDiscoveredEdges _

variable (str oldNodes oldEdges discoveries newId) in
/-- A plan is the plans of the tenants, each some way into the supply. -/
theorem planTenants_split {tenants : List Nat} (hnodup : tenants.Nodup) (used : Nat) :
    ∃ start : Nat → Nat,
      let plans := fun t => planOf str oldNodes oldEdges discoveries newId (start t) t
      let plan := planTenants str oldNodes oldEdges discoveries newId used tenants
      plan.nodes = tenants.flatMap (fun t => (plans t).nodes) ∧
        plan.edges = tenants.flatMap (fun t => (plans t).edges) := by
  induction tenants generalizing used with
  | nil => exact ⟨fun _ => 0, rfl, rfl⟩
  | cons t tenants ih =>
    obtain ⟨hnot, hnodup⟩ := List.nodup_cons.mp hnodup
    obtain ⟨start, hn, he⟩ := ih hnodup (planTenant str t
      (oldNodes.filter (·.tenantId = t)) (oldEdges.filter (·.tenantId = t))
      (discoveries.filter (·.tenantId = t)) newId used).2
    have hrest : ∀ {β : Type} (f : RepairPlan → List β),
        tenants.flatMap (fun u => f (planOf str oldNodes oldEdges discoveries newId
          (if u = t then used else start u) u)) =
        tenants.flatMap (fun u => f (planOf str oldNodes oldEdges discoveries newId (start u) u)) := by
      intro β f
      refine List.flatMap_congr fun u hu => ?_
      have hut : u ≠ t := fun h => hnot (h ▸ hu)
      rw [if_neg hut]
    refine ⟨fun u => if u = t then used else start u, ?_⟩
    simp only [planTenants, RepairPlan.append, List.flatMap_cons, if_true, hn, he]
    exact ⟨congrArg _ (hrest RepairPlan.nodes).symm, congrArg _ (hrest RepairPlan.edges).symm⟩

variable (oldNodes discoveries) in
theorem planTenantIds_nodup : (planTenantIds oldNodes discoveries).Nodup :=
  ((perm_orderBy _ _).nodup_iff).mpr (List.nodup_dedup _)

variable (str oldNodes oldEdges discoveries newId) in
/-- A plan is the plans of its tenants. -/
theorem buildPlan_split : ∃ start : Nat → Nat,
    let plans := fun t => planOf str oldNodes oldEdges discoveries newId (start t) t
    let plan := buildPlan str oldNodes oldEdges discoveries newId
    plan.nodes = (planTenantIds oldNodes discoveries).flatMap (fun t => (plans t).nodes) ∧
      plan.edges = (planTenantIds oldNodes discoveries).flatMap (fun t => (plans t).edges) := by
  obtain ⟨start, hnodes, hedges⟩ :=
    planTenants_split str oldNodes oldEdges discoveries newId
      (planTenantIds_nodup oldNodes discoveries) 0
  exact ⟨start, hnodes, hedges⟩

theorem mem_planTenantIds {t : Nat} : t ∈ planTenantIds oldNodes discoveries ↔
    (∃ n ∈ oldNodes, n.tenantId = t) ∨ ∃ d ∈ discoveries, d.tenantId = t := by
  simp [planTenantIds]

/-- Values that a tenant's part has distinct, and that tell the tenant, are distinct. -/
theorem nodup_flatMap_of_tenant {β : Type} (tenant : β → Nat → Prop) {tenants : List Nat}
    (hnodup : tenants.Nodup) {f : Nat → List β} (heach : ∀ t, (f t).Nodup)
    (hmem : ∀ t, ∀ b ∈ f t, tenant b t) (htell : ∀ b t t', tenant b t → tenant b t' → t = t') :
    (tenants.flatMap f).Nodup := by
  rw [List.nodup_flatMap]
  refine ⟨fun t _ => heach t, hnodup.imp ?_⟩
  intro t t' hne b hb hb'
  exact hne (htell b t t' (hmem t b hb) (hmem t' b hb'))

/-- No old row has two decisions. -/
theorem buildPlan_old_nodup (hids : (oldNodes.map OldNode.id).Nodup) :
    ((buildPlan str oldNodes oldEdges discoveries newId).nodes.filterMap
      PlannedNode.oldNodeId).Nodup := by
  obtain ⟨start, hnodes, -⟩ := buildPlan_split str oldNodes oldEdges discoveries newId
  rw [hnodes, List.filterMap_flatMap]
  refine nodup_flatMap_of_tenant (fun i t => ∃ r ∈ oldNodes, r.tenantId = t ∧ r.id = i)
    (planTenantIds_nodup _ _) ?_ ?_ ?_
  · intro t
    show ((planNodes _ _ _ _ _).planned.filterMap _).Nodup
    rw [planned_old]
    exact ((perm_orderBy _ _).map _).nodup_iff.mpr ((List.filter_sublist.map _).nodup hids)
  · intro t i hi
    change i ∈ (planNodes _ _ _ _ _).planned.filterMap _ at hi
    rw [planned_old, List.mem_map] at hi
    obtain ⟨r, hr, rfl⟩ := hi
    obtain ⟨hr, ht⟩ := List.mem_filter.mp ((mem_orderBy _).mp hr)
    exact ⟨r, hr, of_decide_eq_true ht, rfl⟩
  · rintro i t t' ⟨r, hr, rfl, hri⟩ ⟨r', hr', rfl, hri'⟩
    rw [List.inj_on_of_nodup_map hids hr hr' (hri.trans hri'.symm)]

variable (hold : OldGraph oldNodes oldEdges)
include hold

variable (str discoveries newId) in
/-- A decision about every old row, and one only. -/
theorem buildPlan_old {n : OldNode} (hn : n ∈ oldNodes) :
    ∃ p, (buildPlan str oldNodes oldEdges discoveries newId).nodes.filter
        (fun p => p.oldNodeId = some n.id) = [p] ∧
      p.nodeId = n.id ∧ p.tenantId = n.tenantId ∧ p.kind = n.kind ∧ p.name = n.name := by
  obtain ⟨start, hnodes, -⟩ := buildPlan_split str oldNodes oldEdges discoveries newId
  have hmine : n ∈ oldNodes.filter (·.tenantId = n.tenantId) :=
    List.mem_filter.mpr ⟨hn, decide_eq_true rfl⟩
  refine ⟨plannedRow n.tenantId (tenantStage str n.tenantId
    (discoveries.filter (·.tenantId = n.tenantId))) n, ?_, rfl, rfl, rfl, rfl⟩
  refine filter_eq_singleton (buildPlan_old_nodup hold.node_ids) ?_ rfl
  rw [hnodes, List.mem_flatMap]
  exact ⟨n.tenantId, mem_planTenantIds.mpr (.inl ⟨n, hn, rfl⟩),
    mem_planned.mpr (.inl ⟨n, hmine, rfl⟩)⟩

/-- No two planned nodes of a tenant have one scope, kind and name. -/
theorem buildPlan_keys_nodup :
    ((buildPlan str oldNodes oldEdges discoveries newId).nodes.map fun p =>
      (p.tenantId, p.key)).Nodup := by
  obtain ⟨start, hnodes, -⟩ := buildPlan_split str oldNodes oldEdges discoveries newId
  rw [hnodes, List.map_flatMap]
  refine nodup_flatMap_of_tenant (fun k t => k.1 = t) (planTenantIds_nodup _ _) ?_ ?_ ?_
  · intro t
    have hkeys : ((nodePlanOf str oldNodes discoveries newId (start t) t).planned.map
        PlannedNode.key).Nodup :=
      planned_keys_nodup (tenantStage_noLegacyClaims _) (hold.names t)
    refine List.Nodup.of_map Prod.snd ?_
    rw [List.map_map]
    exact hkeys
  · intro t k hk
    obtain ⟨p, hp, rfl⟩ := List.mem_map.mp hk
    exact planned_tenant hp
  · rintro k t t' rfl rfl
    rfl

/-- A planned node for every claim that is not in conflict, and one only. -/
theorem buildPlan_claim {t : Nat} {key : NodeKey} {target : Nat}
    (hclaim : Claimed discoveries t key target)
    (hsole : ∀ target', Claimed discoveries t key target' → target' = target) :
    ∃ p, (buildPlan str oldNodes oldEdges discoveries newId).nodes.filter
        (fun p => p.tenantId = t ∧ p.key = key) = [p] ∧
      (p.action = .adopt ∨ p.action = .publish) := by
  obtain ⟨start, hnodes, -⟩ := buildPlan_split str oldNodes oldEdges discoveries newId
  have hconflict : (stageOf str discoveries t).isConflict key = false :=
    not_isConflict fun target' h => hsole target' (mem_claims_tenant.mp h)
  obtain ⟨p, hp, rfl, haction⟩ : ∃ p ∈ (nodePlanOf str oldNodes discoveries newId (start t) t).planned,
      p.key = key ∧ (p.action = .adopt ∨ p.action = .publish) :=
    exists_planned_claim (mem_claims_tenant.mpr hclaim) hconflict
  have hmem : p ∈ (buildPlan str oldNodes oldEdges discoveries newId).nodes := by
    rw [hnodes, List.mem_flatMap]
    obtain ⟨d, hd, ht, -⟩ := hclaim
    exact ⟨t, mem_planTenantIds.mpr (.inr ⟨d, hd, ht⟩), hp⟩
  have hone := filter_eq_singleton (f := fun p : PlannedNode => some (p.tenantId, p.key))
    (b := (t, p.key)) (by rw [List.filterMap_eq_map']; exact buildPlan_keys_nodup hold) hmem
    (by rw [planned_tenant hp])
  exact ⟨p, by simpa using hone, haction⟩

omit hold in
/-- A tenant's planned edges name each old edge of the tenant once at most. -/
theorem planOf_edges_nodup (hids : (oldEdges.map OldEdge.id).Nodup) (used t : Nat) :
    ((planOf str oldNodes oldEdges discoveries newId used t).edges.filterMap
      PlannedEdge.oldEdgeId).Nodup := by
  have hpass := passInv_planOf str oldNodes oldEdges discoveries newId used t
  show ((_ ++ planLeftoverEdges _ _ _ _).filterMap _).Nodup
  rw [List.filterMap_append]
  have hmine : ((oldEdges.filter (·.tenantId = t)).map OldEdge.id).Nodup :=
    (List.filter_sublist.map _).nodup hids
  refine List.nodup_append.mpr ⟨hpass.adopted_nodup hmine, leftover_nodup hmine, ?_⟩
  rintro i hi j hj rfl
  obtain ⟨p, hp, hpi⟩ := List.mem_filterMap.mp hj
  obtain ⟨e, -, hnot, reason, -, rfl⟩ := mem_planLeftoverEdges.mp hp
  obtain rfl : e.id = i := Option.some.inj hpi
  exact hnot hi

variable {p : PlannedEdge}

omit hold in
theorem old_of_planOf_edge {used t : Nat} {i : Nat}
    (hp : p ∈ (planOf str oldNodes oldEdges discoveries newId used t).edges)
    (hi : p.oldEdgeId = some i) : ∃ e ∈ oldEdges, e.tenantId = t ∧ e.id = i ∧ e.ends = p.ends ∧
      p.edgeId = i ∧ p.tenantId = t ∧ p.source = e.source ∧
      (p.action = .adopt ∨ p.action = .quarantine) := by
  rcases List.mem_append.mp hp with hp | hp
  · have hpass := passInv_planOf str oldNodes oldEdges discoveries newId used t
    rcases hpass.row p hp with ⟨old, hget, haction, hid, hold, hsource⟩ | ⟨-, -, -, hnone, -⟩
    · obtain ⟨hmem, hends⟩ := get_oldByEnds hget
      obtain ⟨hmem, ht⟩ := List.mem_filter.mp hmem
      obtain rfl : old.id = i := Option.some.inj (hold.symm.trans hi)
      exact ⟨old, hmem, of_decide_eq_true ht, rfl, hends, hid, hpass.tenant p hp, hsource, .inl haction⟩
    · rw [hnone] at hi
      cases hi
  · obtain ⟨e, he, -, reason, -, rfl⟩ := mem_planLeftoverEdges.mp hp
    obtain ⟨he, ht⟩ := List.mem_filter.mp he
    obtain rfl : e.id = i := Option.some.inj hi
    exact ⟨e, he, of_decide_eq_true ht, rfl, rfl, rfl, rfl, rfl, .inr rfl⟩

omit hold in
/-- The planned edges name each old edge once at most. -/
theorem buildPlan_edges_nodup (hids : (oldEdges.map OldEdge.id).Nodup) :
    ((buildPlan str oldNodes oldEdges discoveries newId).edges.filterMap
      PlannedEdge.oldEdgeId).Nodup := by
  obtain ⟨start, -, hedges⟩ := buildPlan_split str oldNodes oldEdges discoveries newId
  rw [hedges, List.filterMap_flatMap]
  refine nodup_flatMap_of_tenant (fun i t => ∃ e ∈ oldEdges, e.tenantId = t ∧ e.id = i)
    (planTenantIds_nodup _ _) (fun t => planOf_edges_nodup hids _ t) ?_ ?_
  · intro t i hi
    obtain ⟨p, hp, hpi⟩ := List.mem_filterMap.mp hi
    obtain ⟨e, he, ht, hei, -⟩ := old_of_planOf_edge hp hpi
    exact ⟨e, he, ht, hei⟩
  · rintro i t t' ⟨e, he, rfl, hi⟩ ⟨e', he', rfl, hi'⟩
    rw [List.inj_on_of_nodup_map hids he he' (hi.trans hi'.symm)]

omit hold in
/-- A planned node is an old row's, under its id, or a new one. -/
theorem buildPlan_node_cases {p : PlannedNode}
    (hp : p ∈ (buildPlan str oldNodes oldEdges discoveries newId).nodes) :
    (∃ row ∈ oldNodes, p.oldNodeId = some row.id ∧ p.nodeId = row.id ∧ p.action ≠ .publish) ∨
      (p.oldNodeId = none ∧ p.action = .publish) := by
  obtain ⟨start, hnodes, -⟩ := buildPlan_split str oldNodes oldEdges discoveries newId
  rw [hnodes, List.mem_flatMap] at hp
  obtain ⟨t, -, hp⟩ := hp
  rcases mem_planned.mp hp with ⟨row, hrow, rfl⟩ | ⟨key, i, -, rfl⟩
  · refine .inl ⟨row, (List.mem_filter.mp hrow).1, rfl, rfl, ?_⟩
    show (oldNodeDecision row _).action ≠ .publish
    rcases oldNodeDecision_cases row
      (stageOf str discoveries t) with
      ⟨scope, -, -, h⟩ | ⟨reason, h⟩ | ⟨-, reason, h⟩ <;> rw [h] <;> exact NodeAction.noConfusion
  · exact .inr ⟨rfl, rfl⟩

omit hold in
/-- A planned edge is an old one, under its id and with its ends, or a new one. -/
theorem buildPlan_edge_old (hp : p ∈ (buildPlan str oldNodes oldEdges discoveries newId).edges) :
    (∃ e ∈ oldEdges, p.oldEdgeId = some e.id ∧ p.edgeId = e.id ∧ e.ends = p.ends ∧
        p.action ≠ .publish) ∨ (p.oldEdgeId = none ∧ p.action = .publish) := by
  obtain ⟨start, -, hedges⟩ := buildPlan_split str oldNodes oldEdges discoveries newId
  rw [hedges, List.mem_flatMap] at hp
  obtain ⟨t, -, hp⟩ := hp
  rcases hi : p.oldEdgeId with _ | i
  · refine .inr ⟨rfl, ?_⟩
    rcases List.mem_append.mp hp with hp | hp
    · have hpass := passInv_planOf str oldNodes oldEdges discoveries newId (start t) t
      rcases hpass.row p hp with ⟨_, -, -, -, hsome, -⟩ | ⟨-, haction, -⟩
      · rw [hi] at hsome
        cases hsome
      · exact haction
    · obtain ⟨e, -, -, reason, -, rfl⟩ := mem_planLeftoverEdges.mp hp
      cases hi
  · obtain ⟨e, he, -, rfl, hends, hid, -, -, haction⟩ := old_of_planOf_edge hp hi
    refine .inl ⟨e, he, rfl, hid, hends, ?_⟩
    rcases haction with h | h <;> rw [h] <;> exact EdgeAction.noConfusion

/-- The scopes in which one target claims. -/
def ScopeOfTarget (target : Nat) (s : Scope) : Prop := s = .global ∨ s = .target target

omit hold in
/-- A planned edge joins planned nodes in scopes of one target, or it is quarantined: with an
 end that is set aside, or as what nobody reported. -/
theorem buildPlan_edge_cases (hp : p ∈ (buildPlan str oldNodes oldEdges discoveries newId).edges) :
    let plan := buildPlan str oldNodes oldEdges discoveries newId
    (p.action ≠ .quarantine ∧ ∃ target, ∃ q ∈ plan.nodes, ∃ q' ∈ plan.nodes,
        q.nodeId = p.fromNodeId ∧ q'.nodeId = p.toNodeId ∧
          ScopeOfTarget target q.scope ∧ ScopeOfTarget target q'.scope) ∨
      (p.action = .quarantine ∧ (p.reason = "not_rediscovered" ∨
        ∃ q ∈ plan.nodes, (q.nodeId = p.fromNodeId ∨ q.nodeId = p.toNodeId) ∧
          q.scope.isLegacy = true)) := by
  intro plan
  obtain ⟨start, hnodes, hedges⟩ := buildPlan_split str oldNodes oldEdges discoveries newId
  rw [hedges, List.mem_flatMap] at hp
  obtain ⟨t, ht, hp⟩ := hp
  have hin : ∀ q ∈ (planOf str oldNodes oldEdges discoveries newId (start t) t).nodes,
      q ∈ plan.nodes := by
    intro q hq
    show q ∈ (buildPlan _ _ _ _ _).nodes
    rw [hnodes]
    exact List.mem_flatMap.mpr ⟨t, ht, hq⟩
  -- an edge that was found again, or one that is left over
  rcases List.mem_append.mp hp with hp | hp
  · have hpass := passInv_planOf str oldNodes oldEdges discoveries newId (start t) t
    obtain ⟨target, fromKey, toKey, hfrom, hto, hfromId, htoId⟩ := hpass.joins p hp
    have hscope : ∀ key : NodeKey, (key, target) ∈ (tenantStage str t
        (discoveries.filter (·.tenantId = t))).claims → ScopeOfTarget target key.1 := by
      intro key hkey
      obtain ⟨-, -, -, -, -, -, n, -, rfl⟩ := mem_claims_tenant.mp hkey
      unfold claimKey scopeForDiscoveredNode
      split
      · exact .inl rfl
      · exact .inr rfl
    obtain ⟨q, hq, hqid, hqkey⟩ := planned_of_finalId hfromId
    obtain ⟨q', hq', hqid', hqkey'⟩ := planned_of_finalId htoId
    refine .inl ⟨?_, target, q, hin q hq, q', hin q' hq', hqid, hqid', ?_, ?_⟩
    · rcases hpass.row p hp with ⟨_, -, h, -⟩ | ⟨-, h, -⟩ <;> rw [h] <;> decide
    · have hfromScope := hscope fromKey hfrom
      rwa [← hqkey] at hfromScope
    · have htoScope := hscope toKey hto
      rwa [← hqkey'] at htoScope
  · obtain ⟨e, -, -, reason, hreason, rfl⟩ := mem_planLeftoverEdges.mp hp
    refine .inr ⟨rfl, ?_⟩
    -- an end that keeps its legacy scope is itself a planned node
    have hlegacy : ∀ i, (get (scopeOf (planOf str oldNodes oldEdges discoveries newId (start t)
        t).nodes) i).any Scope.isLegacy = true →
        ∃ q ∈ plan.nodes, q.nodeId = i ∧ q.scope.isLegacy = true := by
      intro i hi
      obtain ⟨s, hs, hleg⟩ := (Option.any_eq_true _ _).mp hi
      obtain ⟨q, hq, heq⟩ := List.mem_map.mp (mem_of_mem_ofPairs (mem_of_get hs))
      cases heq
      exact ⟨q, hin q (List.mem_filter.mp hq).1, rfl, hleg⟩
    unfold quarantineReason at hreason
    simp only at hreason
    split at hreason
    · rename_i hany
      rcases Bool.or_eq_true _ _ ▸ hany with h | h
      · obtain ⟨q, hq, hqi, hleg⟩ := hlegacy _ h
        exact .inr ⟨q, hq, .inl hqi, hleg⟩
      · obtain ⟨q, hq, hqi, hleg⟩ := hlegacy _ h
        exact .inr ⟨q, hq, .inr hqi, hleg⟩
    · split at hreason
      · cases hreason
        exact .inl rfl
      · cases hreason

/-- The plan leaves this old row to the readers. -/
def PlannedReadable (plan : RepairPlan) (nodeId : Nat) : Prop :=
  ∃ p ∈ plan.nodes, p.oldNodeId = some nodeId ∧ p.scope.isLegacy = false

variable (str discoveries newId) in
/-- An old edge is adopted once, or quarantined once, or an operator's edge between rows that
stay readable, which the plan does not name. -/
theorem buildPlan_edge {e : OldEdge} (he : e ∈ oldEdges) :
    let plan := buildPlan str oldNodes oldEdges discoveries newId
    (∃ p, plan.edges.filter (fun p => p.oldEdgeId = some e.id) = [p] ∧ p.edgeId = e.id ∧
        (p.action = .adopt ∨ p.action = .quarantine)) ∨
      (plan.edges.filter (fun p => p.oldEdgeId = some e.id) = [] ∧ e.source = .curated ∧
        PlannedReadable plan e.fromNodeId ∧ PlannedReadable plan e.toNodeId) := by
  intro plan
  by_cases hnamed : ∃ p ∈ plan.edges, p.oldEdgeId = some e.id
  · obtain ⟨p, hp, hpe⟩ := hnamed
    refine .inl ⟨p, filter_eq_singleton (buildPlan_edges_nodup hold.edge_ids) hp hpe, ?_⟩
    obtain ⟨start, -, hedges⟩ := buildPlan_split str oldNodes oldEdges discoveries newId
    change p ∈ (buildPlan _ _ _ _ _).edges at hp
    rw [hedges, List.mem_flatMap] at hp
    obtain ⟨t, -, hp⟩ := hp
    obtain ⟨-, -, -, -, -, hid, -, -, haction⟩ := old_of_planOf_edge hp hpe
    exact ⟨hid, haction⟩
  · refine .inr ⟨?_, ?_⟩
    · rw [List.filter_eq_nil_iff]
      intro p hp hpe
      exact hnamed ⟨p, hp, of_decide_eq_true hpe⟩
    · obtain ⟨start, hnodes, hedges⟩ := buildPlan_split str oldNodes oldEdges discoveries newId
      obtain ⟨⟨n, hn, hnid, hnt⟩, ⟨m, hm, hmid, hmt⟩⟩ := hold.ends e he
      have ht : e.tenantId ∈ planTenantIds oldNodes discoveries :=
        mem_planTenantIds.mpr (.inl ⟨n, hn, hnt⟩)
      have hmine : ∀ x ∈ oldNodes, x.tenantId = e.tenantId →
          x ∈ oldNodes.filter (·.tenantId = e.tenantId) :=
        fun x hx hxt => List.mem_filter.mpr ⟨hx, decide_eq_true hxt⟩
      have hin : ∀ p ∈ (planOf str oldNodes oldEdges discoveries newId (start e.tenantId)
          e.tenantId).edges, p ∈ plan.edges := by
        intro p hp
        show p ∈ (buildPlan _ _ _ _ _).edges
        rw [hedges]
        exact List.mem_flatMap.mpr ⟨_, ht, hp⟩
      have hinNode : ∀ p ∈ (planOf str oldNodes oldEdges discoveries newId (start e.tenantId)
          e.tenantId).nodes, p ∈ plan.nodes := by
        intro p hp
        show p ∈ (buildPlan _ _ _ _ _).nodes
        rw [hnodes]
        exact List.mem_flatMap.mpr ⟨_, ht, hp⟩
      -- Nothing in the tenant's plan names the edge, so it was neither adopted nor set aside.
      have hreason : quarantineReason e (scopeOf (planOf str oldNodes oldEdges discoveries newId
          (start e.tenantId) e.tenantId).nodes) = none := by
        rcases hq : quarantineReason e (scopeOf (planOf str oldNodes oldEdges discoveries newId
          (start e.tenantId) e.tenantId).nodes) with _ | reason
        · rfl
        · refine absurd ⟨_, hin _ (List.mem_append_right _ (mem_planLeftoverEdges.mpr
            ⟨e, List.mem_filter.mpr ⟨he, decide_eq_true rfl⟩, ?_, reason, hq, rfl⟩)), rfl⟩ hnamed
          intro hadopted
          obtain ⟨p, hp, hpe⟩ := List.mem_filterMap.mp hadopted
          exact hnamed ⟨p, hin p (List.mem_append_left _ hp), hpe⟩
      obtain ⟨hsource, hfrom, hto⟩ := quarantineReason_eq_none.mp hreason
      have hreadable : ∀ x ∈ oldNodes, x.tenantId = e.tenantId →
          (∀ s ∈ get (scopeOf (planOf str oldNodes oldEdges discoveries newId
            (start e.tenantId) e.tenantId).nodes) x.id, s.isLegacy = false) →
          PlannedReadable plan x.id := by
        intro x hx hxt hs
        refine ⟨_, hinNode _ (mem_planned.mpr (.inl ⟨x, hmine x hx hxt, rfl⟩)), rfl, ?_⟩
        exact hs _ (get_scopeOf (hold.ids e.tenantId) (hmine x hx hxt))
      exact ⟨hsource, hnid ▸ hreadable n hn hnt (hnid ▸ hfrom),
        hmid ▸ hreadable m hm hmt (hmid ▸ hto)⟩

end Tenants
end Meho.Graph
