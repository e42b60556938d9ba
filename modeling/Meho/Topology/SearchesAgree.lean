import Meho.Topology.Path

/- The searches of the topology graph agree with each other (topology/query.py).

`find_dependencies`, `find_dependents` and `find_path` are statements of their own. A directed
path and the closure of its first endpoint give the second one the same distance
(`path_agrees_with_closure`): they enter the same nodes but for the anchor, to which no shortest
walk returns. Both directions of the closure walk the same edges, so a node is as far among the
dependencies of another one as that one is among its dependents (`closures_are_dual`), and
closures one after the other stay within a deeper one (`closures_compose`). -/
namespace Meho.Topology
open Meho.Lib

def WalkParams.Takes (q : WalkParams) (e : GraphEdge) : Prop :=
  e.tenantId = q.tenantId ∧ q.kindFilter.all (e.kind = ·) ∧ q.classKinds.all (e.kind ∈ ·) ∧
    q.classExcludedKinds.all (e.kind ∉ ·) ∧ notSuperseded e ∧ (q.includeStale ∨ e.lastSeen.isSome)

def WalkParams.Enters (q : WalkParams) (n : GraphNode) : Prop :=
  n.tenantId = q.tenantId ∧ isLegacyScope n.sourceScope = false ∧
    (q.includeStale ∨ n.lastSeen.isSome)

section Searches
variable {g : Graph} {q : WalkParams} {a b : GraphNode}

theorem stepTo_iff {p i : Nat} : StepTo g q p i ↔
    (∃ e ∈ g.edges, q.Takes e ∧ q.parentEnd e = p ∧ q.childEnd e = i) ∧
      ∃ n ∈ g.nodes, n.id = i ∧ q.Enters n := by
  have hadmits : ∀ e n, q.admits e n = true ↔ q.Takes e ∧ q.Enters n := by
    intro e n
    simp only [WalkParams.admits, WalkParams.Takes, WalkParams.Enters, Bool.and_eq_true,
      Bool.or_eq_true, Bool.not_eq_true', decide_eq_true_eq]
    tauto
  constructor
  · rintro ⟨⟨e, n⟩, hstep, rfl⟩
    obtain ⟨he, hp, hn, hchild, hadmit⟩ := mem_stepsFrom.mp hstep
    obtain ⟨htakes, henters⟩ := (hadmits e n).mp hadmit
    exact ⟨⟨e, he, htakes, hp, hchild.symm⟩, n, hn, rfl, henters⟩
  · rintro ⟨⟨e, he, htakes, hp, hchild⟩, n, hn, rfl, henters⟩
    exact ⟨(e, n), mem_stepsFrom.mpr ⟨he, hp, hn, hchild.symm, (hadmits e n).mpr ⟨htakes, henters⟩⟩,
      rfl⟩

theorem traversal_depth {κ : Type} [LinearOrder κ] (db : Database κ) (ha : a ∈ g.nodes)
    (htenant : a.tenantId = q.tenantId) (hb : b ∈ g.nodes) (depth t : Nat) :
    (∃ n ∈ traversalSql db g q a.id depth, n.id = b.id ∧ n.depth = t) ↔
      t ≤ depth ∧ Dist (StepTo g q) a.id t b.id := by
  constructor
  · rintro ⟨n, hn, hid, rfl⟩
    obtain ⟨k, hk, m, via, -, hshown, rfl⟩ := (mem_traversalSql db ha htenant).mp hn
    exact ⟨hk, hid ▸ hshown.dist⟩
  · rintro ⟨ht, hdist⟩
    have hlevel := ((levels_spec db ha t).2 b).mpr ⟨hb, hdist⟩
    exact ⟨_, (mem_traversalSql db ha htenant).mpr ⟨t, ht, b, _, hb, levelVia_shown db ha hlevel, rfl⟩,
      rfl, rfl⟩

def ClosureRequest.walk (r : ClosureRequest)
    (classes : Option (List String) × Option (List String)) : WalkParams :=
  ⟨r.tenantId, r.reverse, r.kindFilter, classes.1, classes.2, r.includeStale⟩

theorem params_ok {r : ClosureRequest} (h : r.params = .ok q) :
    ∃ classes, relationClassKindFilter r.relationClass = some classes ∧ q = r.walk classes := by
  unfold ClosureRequest.params at h
  split at h
  · cases h
  · exact ⟨(_, _), ‹_›, (Except.ok.inj h).symm⟩

/-! ## Paths and closures -/

def PathRequest.closure (r : PathRequest) : ClosureRequest :=
  ⟨r.tenantId, r.fromName, r.direction = .reverse, r.fromKind, r.maxHops, none, r.relationClass,
    r.includeStale⟩

section Hops
variable {r : PathRequest} {classes : Option (List String) × Option (List String)} {p i : Nat}

/-- A hop of a path is a step of the closure, but for one back to the anchor. -/
theorem hop_iff (hdir : r.direction ≠ .undirected) (hb : b ∈ g.nodes)
    (hlive : r.includeStale ∨ b.lastSeen.isSome) :
    (StepTo g (r.closure.walk classes) p i → Hop g (r.params a.id b.id classes) p i) ∧
      (Hop g (r.params a.id b.id classes) p i → i = a.id ∨ StepTo g (r.closure.walk classes) p i) := by
  have hedge : ∀ e : GraphEdge, (r.params a.id b.id classes).allows e = true ∧
      (r.params a.id b.id classes).Leads e p i ↔ (r.closure.walk classes).Takes e ∧
        (r.closure.walk classes).parentEnd e = p ∧ (r.closure.walk classes).childEnd e = i := by
    intro e
    refine and_congr ?_ ?_
    · simp only [PathParams.allows, WalkParams.Takes, Bool.and_eq_true, Bool.or_eq_true,
        decide_eq_true_eq]
      simp only [PathRequest.params, PathRequest.closure, ClosureRequest.walk, Option.all_none]
      tauto
    · cases hd : r.direction with
      | undirected => exact absurd hd hdir
      | forward | reverse =>
        simp [PathParams.Leads, PathRequest.params, PathRequest.closure, ClosureRequest.walk,
          WalkParams.parentEnd, WalkParams.childEnd, hd]
  rw [stepTo_iff]
  constructor
  · rintro ⟨⟨e, he, hstep⟩, n, hn, hid, htenant, hscope, hseen⟩
    exact ⟨⟨e, he, (hedge e).mpr hstep⟩, n, hn, hid, htenant, hscope, hseen.imp_right .inl⟩
  · rintro ⟨⟨e, he, hleads⟩, n, hn, hid, htenant, hscope, henters⟩
    by_cases hanchor : i = a.id
    · exact .inl hanchor
    refine .inr ⟨⟨e, he, (hedge e).mp hleads⟩, n, hn, hid, htenant, hscope, ?_⟩
    rcases henters with hseen | hseen | hfrom | hto
    · exact .inl hseen
    · exact .inr hseen
    · exact absurd (hid.symm.trans hfrom) hanchor
    · exact Graph.node_unique hn hb hto ▸ hlive

end Hops

/-- **A directed path is as long as the closure of its first endpoint says.** For a second
endpoint that may be entered, a path of so many hops is found if and only if the closure of
the first endpoint has the second one at that depth. -/
theorem path_agrees_with_closure {κ : Type} [LinearOrder κ] (db : Database κ) (g : Graph)
    (r : PathRequest) {b : GraphNode} {closure : List TopologyNode}
    (hdir : r.direction ≠ .undirected) (hclosure : traverse db g r.closure = .ok closure)
    (hb : resolveNode g r.tenantId r.toName r.toKind = .ok b)
    (hlive : r.includeStale ∨ b.lastSeen.isSome) :
    ∃ answer, findPath g r = .ok answer ∧
      ∀ hops, (∃ path, answer = some path ∧ path.totalHops = hops) ↔
        ∃ n ∈ closure, n.id = b.id ∧ n.depth = hops := by
  obtain ⟨q, a, hparams, ha, -, rfl⟩ := traverse_ok hclosure
  obtain ⟨classes, hclass, rfl⟩ := params_ok hparams
  obtain ⟨-, answer, hfind, hiff, hroute⟩ := findPath_answer ha hb hclass
  have hmem := resolveNode_ok ha
  have hbmem := (resolveNode_ok hb).1
  refine ⟨answer, hfind, fun hops => ?_⟩
  rw [traversal_depth db hmem.1 hmem.2.1 hbmem, dist_iff_of_return
    (fun _ _ => (hop_iff hdir hbmem hlive).1) fun _ _ => (hop_iff hdir hbmem hlive).2]
  constructor
  · rintro ⟨path, hpath, rfl⟩
    obtain ⟨-, hshort, -⟩ := hroute path hpath
    obtain ⟨k, hk, hwalk⟩ := hiff.mp (hpath ▸ rfl)
    exact ⟨Nat.le_trans (Nat.le_of_not_lt fun hlt => hshort.2 k hlt hwalk) hk, hshort⟩
  · rintro ⟨hle, hshort⟩
    obtain ⟨path, hpath⟩ := Option.isSome_iff_exists.mp (hiff.mpr ⟨hops, hle, hshort.1⟩)
    exact ⟨path, hpath, (hroute path hpath).2.1.unique hshort⟩

theorem path_agrees_with_closure_host :
    let r : PathRequest := ⟨7, "guest", "esx", none, none, 3, true, .forward, none, false⟩
    ∃ answer, findPath guestOnHost r = .ok answer ∧
      ∀ hops, (∃ path, answer = some path ∧ path.totalHops = hops) ↔
        ∃ n ∈ traversalSql plainDatabase guestOnHost ⟨7, false, none, none, none, true⟩ 1 3,
          n.id = 2 ∧ n.depth = hops :=
  path_agrees_with_closure (b := guestOnHost.nodes[1]) plainDatabase guestOnHost
    ⟨7, "guest", "esx", none, none, 3, true, .forward, none, false⟩ (by decide) rfl rfl (.inl rfl)

/-! ## Dependencies and dependents -/

def WalkParams.flipped (q : WalkParams) : WalkParams := { q with reverse := !q.reverse }

theorem walk_flipped {k i : Nat} (ha : a ∈ g.nodes) (henters : q.Enters a)
    (h : WalkLen (StepTo g q) a.id k i) :
    (∃ n ∈ g.nodes, n.id = i ∧ q.Enters n) ∧ WalkLen (StepTo g q.flipped) i k a.id := by
  induction k generalizing i with
  | zero =>
    obtain rfl := h
    exact ⟨⟨a, ha, rfl, henters⟩, rfl⟩
  | succ k ih =>
    obtain ⟨p, hp, hstep⟩ := h
    obtain ⟨hnode, hback⟩ := ih hp
    obtain ⟨⟨e, he, htakes, hparent, hchild⟩, hreached⟩ := stepTo_iff.mp hstep
    refine ⟨hreached, hback.prepend (stepTo_iff.mpr ⟨⟨e, he, htakes, ?_⟩, hnode⟩)⟩
    rw [← hparent, ← hchild]
    cases hr : q.reverse <;>
      simp [WalkParams.parentEnd, WalkParams.childEnd, WalkParams.flipped, hr]

theorem dist_flipped {k : Nat} (ha : a ∈ g.nodes) (hb : b ∈ g.nodes) (hentersA : q.Enters a)
    (hentersB : q.Enters b) :
    Dist (StepTo g q) a.id k b.id ↔ Dist (StepTo g q.flipped) b.id k a.id := by
  have hq : q.flipped.flipped = q := by simp [WalkParams.flipped]
  have hwalk (j : Nat) : WalkLen (StepTo g q) a.id j b.id ↔
      WalkLen (StepTo g q.flipped) b.id j a.id := by
    refine ⟨fun h => (walk_flipped ha hentersA h).2, fun h => ?_⟩
    have hback := (walk_flipped (q := q.flipped) hb hentersB h).2
    rwa [hq] at hback
  simp only [Lib.Dist, hwalk]

/-- **Dependents are the dependencies read backwards.** For two nodes that a walk may enter,
the closure of the first has the second at a depth if and only if the closure of the second in
the other direction has the first at this depth. -/
theorem closures_are_dual {κ : Type} [LinearOrder κ] (db : Database κ) (g : Graph)
    (r : ClosureRequest) (name : String) (kind : Option String) {a b : GraphNode}
    {closure closure' : List TopologyNode} (hclosure : traverse db g r = .ok closure)
    (hclosure' : traverse db g { r with name, kind, reverse := !r.reverse } = .ok closure')
    (ha : resolveNode g r.tenantId r.name r.kind = .ok a)
    (hb : resolveNode g r.tenantId name kind = .ok b)
    (hlive : r.includeStale ∨ a.lastSeen.isSome ∧ b.lastSeen.isSome) (depth : Nat) :
    (∃ n ∈ closure, n.id = b.id ∧ n.depth = depth) ↔
      ∃ n ∈ closure', n.id = a.id ∧ n.depth = depth := by
  obtain ⟨q, a', hparams, ha', -, rfl⟩ := traverse_ok hclosure
  obtain ⟨q', b', hparams', hb', -, rfl⟩ := traverse_ok hclosure'
  obtain rfl := Except.ok.inj (ha.symm.trans ha')
  obtain rfl := Except.ok.inj (hb.symm.trans hb')
  obtain ⟨classes, hclass, rfl⟩ := params_ok hparams
  obtain ⟨classes', hclass', rfl⟩ := params_ok hparams'
  obtain rfl := Option.some.inj (hclass.symm.trans hclass')
  obtain ⟨hamem, hatenant, hascope⟩ := resolveNode_ok ha
  obtain ⟨hbmem, hbtenant, hbscope⟩ := resolveNode_ok hb
  rw [traversal_depth db hamem hatenant hbmem, traversal_depth db hbmem hbtenant hamem]
  refine and_congr_right fun _ => dist_flipped hamem hbmem ?_ ?_
  · exact ⟨hatenant, hascope, hlive.imp_right And.left⟩
  · exact ⟨hbtenant, hbscope, hlive.imp_right And.right⟩

theorem closures_are_dual_host :
    (∃ n ∈ traversalSql plainDatabase guestOnHost ⟨7, false, none, none, none, true⟩ 1 3,
        n.id = 2 ∧ n.depth = 1) ↔
      ∃ n ∈ traversalSql plainDatabase guestOnHost ⟨7, true, none, none, none, true⟩ 2 3,
        n.id = 1 ∧ n.depth = 1 :=
  closures_are_dual (a := guestOnHost.nodes[0]) (b := guestOnHost.nodes[1]) plainDatabase guestOnHost
    ⟨7, "guest", false, none, 3, none, none, true⟩ "esx" none rfl rfl rfl rfl (.inl rfl) 1

/-- **What depends on a dependent depends.** A node of the closure of a node in the closure of
the anchor is in the deeper closure of the anchor, no further away than the two depths add up
to. -/
theorem closures_compose {κ : Type} [LinearOrder κ] (db : Database κ) (g : Graph)
    (r : ClosureRequest) (name : String) (kind : Option String) (more : Nat) {b : GraphNode}
    {closure next deeper : List TopologyNode} (hclosure : traverse db g r = .ok closure)
    (hnext : traverse db g { r with name, kind, depth := more } = .ok next)
    (hdeeper : traverse db g { r with depth := r.depth + more } = .ok deeper)
    (hb : resolveNode g r.tenantId name kind = .ok b) {m n : TopologyNode} (hm : m ∈ closure)
    (hid : m.id = b.id) (hn : n ∈ next) :
    ∃ x ∈ deeper, x.id = n.id ∧ x.depth ≤ m.depth + n.depth := by
  obtain ⟨q, a, hparams, ha, htenant, rfl⟩ := traverse_ok hclosure
  obtain ⟨_, _, hparams', hb', -, rfl⟩ := traverse_ok hnext
  obtain ⟨_, _, hparams'', ha'', -, rfl⟩ := traverse_ok hdeeper
  obtain rfl := Except.ok.inj (hparams.symm.trans hparams')
  obtain rfl := Except.ok.inj (hparams.symm.trans hparams'')
  obtain rfl := Except.ok.inj (hb.symm.trans hb')
  obtain rfl := Except.ok.inj (ha.symm.trans ha'')
  obtain ⟨hamem, hatenant, -⟩ := resolveNode_ok ha
  obtain ⟨hbmem, hbtenant, -⟩ := resolveNode_ok hb
  rw [← htenant] at hatenant hbtenant
  obtain ⟨hle, hfirst⟩ := (traversal_depth db hamem hatenant hbmem _ _).mp ⟨m, hm, hid, rfl⟩
  obtain ⟨j, hj, c, via, hc, hshown, rfl⟩ := (mem_traversalSql db hbmem hbtenant).mp hn
  obtain ⟨i, hi, hdist⟩ := exists_dist (hfirst.1.append hshown.dist.1)
  obtain ⟨x, hx, hxid, rfl⟩ := (traversal_depth db hamem hatenant hc _ _).mpr
    ⟨Nat.le_trans hi (Nat.add_le_add hle hj), hdist⟩
  exact ⟨x, hx, hxid, hi⟩

theorem closures_compose_host :
    ∃ x ∈ traversalSql plainDatabase guestOnHost ⟨7, false, none, none, none, true⟩ 1 2,
      x.id = 2 ∧ x.depth ≤ 1 + 0 :=
  closures_compose (b := guestOnHost.nodes[1]) plainDatabase guestOnHost
    ⟨7, "guest", false, none, 1, none, none, true⟩ "esx" none 1 rfl rfl rfl rfl
    (List.mem_of_getElem? (i := 1) rfl) rfl (List.mem_of_getElem? (i := 0) rfl)

end Searches

end Meho.Topology
