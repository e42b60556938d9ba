import Meho.Topology.ClosureLevels

/- The bounded closure is the first part of the full one.

Hop `k` of the bounded walk returns the first nodes of level `k`, with the same edges as
the full closure shows. The walk ends with all the levels up to the depth and perhaps a
node past it, or with one row more than a limit allows (`walkHops_outcome`), and the cut
drops that row and names the limit.

Result: the answer is a prefix of the full closure, and its `limit_hit` says whether
there is more (`bounded_refines_closure`). A root that is larger than the byte budget is
the one exception: it is answered alone, without its properties. -/
namespace Meho.Topology
open Meho.Lib

/-! ## Rows with their bytes -/

section Rows
variable {κ : Type} (db : Database κ)

/-- The rows of a hop if no limit stops the load. -/
def sized (byteBudget depth : Nat) (via : Nat → Option (Nat × GraphEdge)) :
    Nat → List GraphNode → List ClosureRow
  | _, [] => []
  | bytesBefore, n :: rest =>
    let bytes := bytesBefore + rowBytes db n
    ⟨n, if bytes ≤ byteBudget then some n.properties else none, depth, via n.id, bytes⟩ ::
      sized byteBudget depth via bytes rest

/-- The running total behind some rows. -/
def bytesOf (rows : List ClosureRow) : Nat := (rows.getLast?.map ClosureRow.cumulativeBytes).getD 0

variable {db} {byteBudget depth : Nat} {via : Nat → Option (Nat × GraphEdge)}

variable {bytesBefore : Nat}

variable (db depth via) in
/-- A load is the first rows of the hop. Only its last row may be past the budget, and if
that is not, the hop is whole. -/
theorem loaded_spec (nodes : List GraphNode) (hbefore : bytesBefore ≤ byteBudget) :
    loaded db byteBudget depth via bytesBefore nodes <+: sized db byteBudget depth via bytesBefore nodes ∧
      (∀ r ∈ (loaded db byteBudget depth via bytesBefore nodes).dropLast,
        r.cumulativeBytes ≤ byteBudget) ∧
      ((∀ r ∈ loaded db byteBudget depth via bytesBefore nodes, r.cumulativeBytes ≤ byteBudget) →
        loaded db byteBudget depth via bytesBefore nodes =
          sized db byteBudget depth via bytesBefore nodes) := by
  induction nodes generalizing bytesBefore with
  | nil => exact ⟨List.nil_prefix, fun r hr => absurd hr List.not_mem_nil, fun _ => rfl⟩
  | cons n rest ih =>
    rw [loaded, if_pos hbefore, sized]
    by_cases hfits : bytesBefore + rowBytes db n ≤ byteBudget
    · obtain ⟨hpre, hwithin, hwhole⟩ := ih hfits
      refine ⟨List.cons_prefix_cons.mpr ⟨rfl, hpre⟩, fun r hr => ?_, fun hall => ?_⟩
      · cases hrest : loaded db byteBudget depth via (bytesBefore + rowBytes db n) rest with
        | nil =>
          simp only [hrest, List.dropLast_singleton] at hr
          cases hr
        | cons x xs =>
          simp only [hrest, List.dropLast_cons_of_ne_nil (List.cons_ne_nil x xs)] at hr
          obtain rfl | hr := List.mem_cons.mp hr
          · exact hfits
          · exact hwithin r (hrest ▸ hr)
      · exact congrArg (_ :: ·) (hwhole fun r hr => hall r (List.mem_cons_of_mem _ hr))
    · have hnone : loaded db byteBudget depth via (bytesBefore + rowBytes db n) rest = [] := by
        cases rest with
        | nil => rfl
        | cons m rest => rw [loaded, if_neg hfits]
      simp only [hnone]
      refine ⟨List.cons_prefix_cons.mpr ⟨rfl, List.nil_prefix⟩,
        fun r hr => absurd hr List.not_mem_nil, fun hall => ?_⟩
      exact absurd (hall _ List.mem_cons_self) hfits

variable {nodes : List GraphNode}

theorem sized_take (n : Nat) :
    sized db byteBudget depth via bytesBefore (nodes.take n) =
      (sized db byteBudget depth via bytesBefore nodes).take n := by
  induction nodes generalizing bytesBefore n with
  | nil => simp [sized]
  | cons x rest ih =>
    cases n with
    | zero => rfl
    | succ n => rw [List.take_succ_cons, sized, sized, ih, List.take_succ_cons]

theorem sized_length : (sized db byteBudget depth via bytesBefore nodes).length = nodes.length := by
  induction nodes generalizing bytesBefore with
  | nil => rfl
  | cons x rest ih => rw [sized, List.length_cons, ih, List.length_cons]

theorem sized_node (bytesBefore : Nat) (nodes : List GraphNode) :
    (sized db byteBudget depth via bytesBefore nodes).map ClosureRow.node = nodes := by
  induction nodes generalizing bytesBefore with
  | nil => rfl
  | cons x rest ih => rw [sized, List.map_cons, ih]

theorem sized_ids (bytesBefore : Nat) (nodes : List GraphNode) :
    (sized db byteBudget depth via bytesBefore nodes).map (·.node.id) = nodes.map GraphNode.id := by
  have hnodes : (sized db byteBudget depth via bytesBefore nodes).map ClosureRow.node = nodes :=
    sized_node bytesBefore nodes
  conv_rhs => rw [← hnodes, List.map_map]
  rfl

/-- What a hop returns of a level: nothing if the level is empty, the whole level, or a first
part of it whose last row is past the budget or the last that the limit allows. -/
theorem step_cases {limit : Nat} (level : List GraphNode) (hlimit : 1 ≤ limit)
    (hbefore : bytesBefore ≤ byteBudget) {step : List ClosureRow}
    (hstep : step = loaded db byteBudget depth via bytesBefore (level.take limit)) :
    step.length ≤ limit ∧ step <+: sized db byteBudget depth via bytesBefore level ∧
      (step = [] → level = []) ∧
      ((step = sized db byteBudget depth via bytesBefore level ∧
          ∀ r ∈ step, r.cumulativeBytes ≤ byteBudget) ∨
        ∃ ys y, step = ys ++ [y] ∧ (∀ r ∈ ys, r.cumulativeBytes ≤ byteBudget) ∧
          (byteBudget < y.cumulativeBytes ∨ step.length = limit)) := by
  obtain ⟨hpre, hwithin, hwhole⟩ := loaded_spec db depth via (level.take limit) hbefore
  rw [← hstep] at hpre hwithin hwhole
  rw [sized_take] at hpre hwhole
  have hlength : step.length ≤ limit := by
    have := hpre.length_le
    rw [List.length_take] at this
    omega
  refine ⟨hlength, hpre.trans (List.take_prefix _ _), fun hempty => ?_, ?_⟩
  · have hnil := hwhole fun r hr => absurd hr (by rw [hempty]; exact List.not_mem_nil)
    rw [hempty] at hnil
    have hzero := congrArg List.length hnil
    rw [List.length_take, sized_length, List.length_nil] at hzero
    exact List.length_eq_zero_iff.mp (by omega)
  · obtain rfl | ⟨ys, y, hlast⟩ := List.eq_nil_or_concat' step
    · have hnil := hwhole fun r hr => absurd hr List.not_mem_nil
      refine .inl ⟨?_, fun r hr => absurd hr List.not_mem_nil⟩
      have hzero := congrArg List.length hnil
      rw [List.length_take, sized_length, List.length_nil] at hzero
      exact (List.length_eq_zero_iff.mp (by rw [sized_length]; omega)).symm
    · rw [hlast, List.dropLast_concat] at hwithin
      -- the last row went over the bytes, or filled the limit, or the level is whole
      by_cases hover : byteBudget < y.cumulativeBytes
      · exact .inr ⟨ys, y, hlast, hwithin, .inl hover⟩
      · have hall : ∀ r ∈ step, r.cumulativeBytes ≤ byteBudget := by
          rw [hlast]
          exact List.forall_mem_append.mpr ⟨hwithin, List.forall_mem_singleton.mpr (Nat.not_lt.mp hover)⟩
        by_cases hfull : step.length = limit
        · exact .inr ⟨ys, y, hlast, hwithin, .inr hfull⟩
        · refine .inl ⟨?_, hall⟩
          have heq := hwhole hall
          have hshort := congrArg List.length heq
          rw [List.length_take] at hshort
          rw [heq, List.take_of_length_le (by omega)]

theorem mem_sized {r : ClosureRow} (h : r ∈ sized db byteBudget depth via bytesBefore nodes) :
    r.depth = depth ∧ r.via = via r.node.id ∧
      (r.cumulativeBytes ≤ byteBudget → r.properties = some r.node.properties) := by
  induction nodes generalizing bytesBefore with
  | nil => cases h
  | cons x rest ih =>
    rw [sized] at h
    obtain rfl | h := List.mem_cons.mp h
    · exact ⟨rfl, rfl, fun hfits => if_pos hfits⟩
    · exact ih h

end Rows

/-! ## Complete levels -/

section Bounded
variable {κ : Type} [LinearOrder κ] (db : Database κ) (g : Graph) (q : WalkParams)
  (budget : ClosureBudget) (root : GraphNode)

/-- The rows of the first `k` levels. -/
def complete : Nat → List ClosureRow
  | 0 => []
  | k + 1 =>
    complete k ++ sized db budget.maxBytes k (levelVia db g q root k) (bytesOf (complete k))
      (levels db g q root k).2

variable {db g q budget root} {depth : Nat}

variable {k : Nat}

theorem complete_mono {j : Nat} (h : j ≤ k) :
    complete db g q budget root j <+: complete db g q budget root k := by
  induction k, h using Nat.le_induction with
  | base => exact List.prefix_refl _
  | succ k _ ih => exact ih.trans (List.prefix_append _ _)

theorem complete_depth {r : ClosureRow} (h : r ∈ complete db g q budget root k) : r.depth < k := by
  induction k with
  | zero => cases h
  | succ k ih =>
    obtain h | h := List.mem_append.mp h
    · exact Nat.lt_succ_of_lt (ih h)
    · exact (mem_sized h).1 ▸ Nat.lt_succ_self _

theorem complete_nodes : (complete db g q budget root k).map
    (fun r => topologyNode r.node r.node.properties r.depth r.via) =
      (List.range k).flatMap (closureLevel db g q root) := by
  induction k with
  | zero => rfl
  | succ k ih =>
    have hnodes : (sized db budget.maxBytes k (levelVia db g q root k)
        (bytesOf (complete db g q budget root k)) (levels db g q root k).2).map ClosureRow.node =
          (levels db g q root k).2 := sized_node _ _
    rw [complete, List.map_append, ih, List.range_succ, List.flatMap_append, List.flatMap_singleton]
    congr 1
    rw [closureLevel]
    conv_rhs => rw [← hnodes, List.map_map]
    refine List.map_congr_left fun r hr => ?_
    obtain ⟨hdepth, hvia, -⟩ := mem_sized hr
    rw [hdepth, hvia]
    rfl

theorem closureRowToNode_complete {r : ClosureRow} (h : r ∈ complete db g q budget root k)
    (hfits : r.cumulativeBytes ≤ budget.maxBytes) :
    closureRowToNode r = topologyNode r.node r.node.properties r.depth r.via := by
  induction k with
  | zero => cases h
  | succ k ih =>
    obtain h | h := List.mem_append.mp h
    · exact ih h
    · rw [closureRowToNode, (mem_sized h).2.2 hfits, Option.getD_some]

/-- Rows within the depth and the budget are kept. -/
theorem cut_within (kept : List TopologyNode) {rows : List ClosureRow} (more : List ClosureRow)
    (hdepth : ∀ r ∈ rows, r.depth ≤ depth) (hbytes : ∀ r ∈ rows, r.cumulativeBytes ≤ budget.maxBytes)
    (hnodes : kept.length + rows.length ≤ budget.maxNodes) :
    cutClosureRows budget depth kept (rows ++ more) =
      cutClosureRows budget depth (kept ++ rows.map closureRowToNode) more := by
  induction rows generalizing kept with
  | nil => simp
  | cons r rows ih =>
    have hr := hdepth r List.mem_cons_self
    have hb := hbytes r List.mem_cons_self
    rw [List.length_cons] at hnodes
    rw [List.cons_append, cutClosureRows, if_neg (Nat.not_lt.mpr hr),
      if_neg (fun h => absurd h.2 (Nat.not_lt.mpr hb)), if_neg (by omega),
      if_neg (Nat.not_lt.mpr hb), ih _ (fun x hx => hdepth x (List.mem_cons_of_mem _ hx))
        (fun x hx => hbytes x (List.mem_cons_of_mem _ hx))
        (by rw [List.length_append, List.length_singleton]; omega)]
    simp

/-! ## The walk -/

/-- How the bounded walk can end. -/
inductive WalkOutcome (db : Database κ) (g : Graph) (q : WalkParams) (budget : ClosureBudget)
    (root : GraphNode) (depth : Nat) : List ClosureRow → Prop where
  /-- All the levels up to the depth, and nothing past it. -/
  | whole (hbytes : ∀ r ∈ complete db g q budget root (depth + 1), r.cumulativeBytes ≤ budget.maxBytes)
      (hnodes : (complete db g q budget root (depth + 1)).length ≤ budget.maxNodes)
      (hnone : ∀ i, ¬Dist (StepTo g q) root.id (depth + 1) i) :
      WalkOutcome db g q budget root depth (complete db g q budget root (depth + 1))
  /-- All the levels up to the depth, and a row past it. -/
  | probed (x : ClosureRow) (hx : depth < x.depth)
      (hbytes : ∀ r ∈ complete db g q budget root (depth + 1), r.cumulativeBytes ≤ budget.maxBytes)
      (hnodes : (complete db g q budget root (depth + 1)).length ≤ budget.maxNodes)
      (hsome : ∃ i, Dist (StepTo g q) root.id (depth + 1) i) :
      WalkOutcome db g q budget root depth (complete db g q budget root (depth + 1) ++ [x])
  /-- One row more than a limit allows. -/
  | stopped (xs : List ClosureRow) (x : ClosureRow)
      (hpre : xs ++ [x] <+: complete db g q budget root (depth + 1))
      (hbytes : ∀ r ∈ xs, r.cumulativeBytes ≤ budget.maxBytes) (hnodes : xs.length ≤ budget.maxNodes)
      (hstop : budget.maxBytes < x.cumulativeBytes ∨ xs.length = budget.maxNodes) :
      WalkOutcome db g q budget root depth (xs ++ [x])

theorem walkHops_stop {inTime : Nat → Bool} {hops hop : Nat} {xs : List ClosureRow} {x : ClosureRow}
    {frontier visited : List Nat}
    (hstop : budget.maxBytes < x.cumulativeBytes ∨ xs.length = budget.maxNodes) :
    walkHops db g q budget inTime depth hops hop (xs ++ [x]) frontier visited = some (xs ++ [x]) := by
  cases hops with
  | zero => rfl
  | succ hops =>
    have hlimit : budget.maxNodes + 1 - (xs ++ [x]).length < 1 ∨ budget.maxBytes < x.cumulativeBytes := by
      rw [List.length_append, List.length_singleton]
      omega
    rw [walkHops, List.getLast?_concat]
    exact if_pos hlimit

variable (budget) in
theorem complete_of_empty (hroot : root ∈ g.nodes) {j : Nat}
    (hempty : (levels db g q root j).2 = []) (h : j ≤ k) :
    complete db g q budget root k = complete db g q budget root j ∧
      ∀ i, ¬Dist (StepTo g q) root.id k i := by
  have hnone : ∀ k, j ≤ k → ∀ i, ¬Dist (StepTo g q) root.id k i := by
    refine fun k hk => no_dist_of_empty (fun i hi => ?_) hk
    obtain ⟨n, hn, rfl⟩ := exists_node hroot hi.1
    have hmem := ((levels_spec db hroot j).2 n).mpr ⟨hn, hi⟩
    rw [hempty] at hmem
    cases hmem
  refine ⟨?_, hnone k h⟩
  induction k, h using Nat.le_induction with
  | base => rfl
  | succ k hk ih =>
    have hlevel : (levels db g q root k).2 = [] := List.eq_nil_iff_forall_not_mem.mpr fun n hn =>
      hnone k hk n.id (((levels_spec db hroot k).2 n).mp hn).2
    rw [complete, hlevel, ih, sized, List.append_nil]

theorem complete_succ_ne_nil : complete db g q budget root (k + 1) ≠ [] := by
  have hpre : complete db g q budget root 1 <+: complete db g q budget root (k + 1) :=
    complete_mono (by omega)
  intro hnil
  rw [hnil, List.prefix_nil] at hpre
  cases hpre

/-! ### One hop -/

section Hop
variable {h : Nat} {xs : List ClosureRow} {x : ClosureRow}

/-- The rows that a hop asks for: the next level up to a row past the limit, and past the depth one
row. -/
def hopLimit (budget : ClosureBudget) (depth h : Nat) (xs : List ClosureRow) : Nat :=
  if depth < h + 1 then 1 else budget.maxNodes + 1 - (xs.length + 1)

variable (db g q budget root h x) in
/-- The rows of the next level, sized behind the last row so far. -/
def nextRows (nodes : List GraphNode) : List ClosureRow :=
  sized db budget.maxBytes (h + 1) (levelVia db g q root (h + 1)) x.cumulativeBytes nodes

variable (db g q budget root depth h xs x) in
/-- What a hop loads. -/
def hopRows : List ClosureRow :=
  loaded db budget.maxBytes (h + 1) (levelVia db g q root (h + 1)) x.cumulativeBytes
    ((levels db g q root (h + 1)).2.take (hopLimit budget depth h xs))

theorem walkHops_hop {inTime : Nat → Bool} (htime : ∀ i, inTime i = true) {hops : Nat}
    (hfits : x.cumulativeBytes ≤ budget.maxBytes) (hroom : xs.length < budget.maxNodes) :
    walkHops db g q budget inTime depth (hops + 1) (h + 1) (xs ++ [x])
        ((levels db g q root h).2.map GraphNode.id) (levels db g q root h).1 =
      if (hopRows db g q budget root depth h xs x).isEmpty then some (xs ++ [x])
      else walkHops db g q budget inTime depth hops (h + 2)
        (xs ++ [x] ++ hopRows db g q budget root depth h xs x)
        ((hopRows db g q budget root depth h xs x).map (·.node.id))
        ((levels db g q root h).1 ++ (hopRows db g q budget root depth h xs x).map (·.node.id)) := by
  have hgo : ¬(budget.maxNodes + 1 - (xs.length + 1) < 1 ∨ budget.maxBytes < x.cumulativeBytes) := by
    omega
  rw [walkHops, List.getLast?_concat]
  simp only [htime, Bool.not_true, Bool.false_eq_true, if_false, List.length_append,
    List.length_singleton]
  rw [if_neg hgo]
  rfl

variable (hrows : complete db g q budget root (h + 1) = xs ++ [x])
include hrows

theorem complete_next : complete db g q budget root (h + 2) =
    xs ++ [x] ++ nextRows db g q budget root h x (levels db g q root (h + 1)).2 := by
  have htotal : bytesOf (complete db g q budget root (h + 1)) = x.cumulativeBytes := by
    rw [hrows, bytesOf, List.getLast?_concat]
    rfl
  rw [complete, htotal, hrows]
  rfl

variable (hall : ∀ r ∈ complete db g q budget root (h + 1), r.cumulativeBytes ≤ budget.maxBytes)
    (hroom : xs.length < budget.maxNodes)
include hall hroom

/-- A level without nodes: all the levels are there. -/
theorem outcome_empty (hroot : root ∈ g.nodes) (hle : h ≤ depth)
    (hempty : (levels db g q root (h + 1)).2 = []) :
    WalkOutcome db g q budget root depth (xs ++ [x]) := by
  obtain ⟨hcomplete, hnone⟩ := complete_of_empty budget hroot hempty (Nat.succ_le_succ hle)
  rw [← hrows, ← hcomplete]
  rw [← hcomplete] at hall hrows
  refine .whole hall ?_ hnone
  rw [hrows, List.length_append, List.length_singleton]
  omega

/-- A row past the depth. -/
theorem outcome_probed (hroot : root ∈ g.nodes) {y : ClosureRow} (hlast : h = depth)
    (hy : y ∈ nextRows db g q budget root h x (levels db g q root (h + 1)).2) :
    WalkOutcome db g q budget root depth (xs ++ [x] ++ [y]) := by
  subst hlast
  have hnode : y.node ∈ (levels db g q root (h + 1)).2 := by
    have hmem := List.mem_map_of_mem (f := ClosureRow.node) hy
    rwa [nextRows, sized_node] at hmem
  rw [← hrows]
  refine .probed y ?_ hall ?_ ⟨y.node.id, ?_⟩
  · rw [(mem_sized hy).1]
    exact Nat.lt_succ_self h
  · rw [hrows, List.length_append, List.length_singleton]
    omega
  · exact (((levels_spec db hroot (h + 1)).2 y.node).mp hnode).2

/-- A level that a limit cuts. -/
theorem outcome_stopped {ys : List ClosureRow} {y : ClosureRow} (hmore : h + 1 ≤ depth)
    (hpre : ys ++ [y] <+: nextRows db g q budget root h x (levels db g q root (h + 1)).2)
    (hwithin : ∀ r ∈ ys, r.cumulativeBytes ≤ budget.maxBytes)
    (hlength : (ys ++ [y]).length ≤ budget.maxNodes + 1 - (xs.length + 1))
    (hstop : budget.maxBytes < y.cumulativeBytes ∨ (xs ++ [x] ++ ys).length = budget.maxNodes) :
    WalkOutcome db g q budget root depth (xs ++ [x] ++ ys ++ [y]) := by
  refine .stopped _ y ?_ ?_ ?_ hstop
  · refine List.IsPrefix.trans ?_ (complete_mono (show h + 2 ≤ depth + 1 by omega))
    rw [complete_next hrows, List.append_assoc]
    exact (List.prefix_append_right_inj _).mpr hpre
  · exact List.forall_mem_append.mpr ⟨hrows ▸ hall, hwithin⟩
  · rw [List.length_append, List.length_singleton] at hlength
    rw [List.length_append, List.length_append, List.length_singleton]
    omega

end Hop

variable (db budget) in
theorem walkHops_outcome (hroot : root ∈ g.nodes) {inTime : Nat → Bool} (htime : ∀ i, inTime i = true)
    (hops h : Nat) (hhops : hops + h = depth + 1) (hpos : 1 ≤ hops)
    (hbytes : ∀ r ∈ (complete db g q budget root (h + 1)).dropLast, r.cumulativeBytes ≤ budget.maxBytes)
    (hnodes : (complete db g q budget root (h + 1)).length ≤ budget.maxNodes + 1) :
    ∃ rows, walkHops db g q budget inTime depth hops (h + 1) (complete db g q budget root (h + 1))
        ((levels db g q root h).2.map GraphNode.id) (levels db g q root h).1 = some rows ∧
      WalkOutcome db g q budget root depth rows := by
  induction hops generalizing h with
  | zero => exact absurd hpos (by decide)
  | succ hops ih =>
    obtain ⟨xs, x, hrows⟩ : ∃ xs x, complete db g q budget root (h + 1) = xs ++ [x] :=
      (List.eq_nil_or_concat' _).resolve_left complete_succ_ne_nil
    rw [hrows, List.dropLast_concat] at hbytes
    rw [hrows, List.length_append, List.length_singleton] at hnodes
    have hle : h ≤ depth := by omega
    by_cases hstop : budget.maxBytes < x.cumulativeBytes ∨ xs.length = budget.maxNodes
    · refine ⟨xs ++ [x], by rw [hrows, walkHops_stop hstop], .stopped xs x ?_ hbytes (by omega) hstop⟩
      rw [← hrows]
      exact complete_mono (Nat.succ_le_succ hle)
    obtain ⟨hx, hfull⟩ := not_or.mp hstop
    have hfits : x.cumulativeBytes ≤ budget.maxBytes := Nat.not_lt.mp hx
    have hroom : xs.length < budget.maxNodes := by omega
    have hall : ∀ r ∈ complete db g q budget root (h + 1), r.cumulativeBytes ≤ budget.maxBytes := by
      rw [hrows]
      exact List.forall_mem_append.mpr ⟨hbytes, List.forall_mem_singleton.mpr hfits⟩
    -- the step that the next hop asks for
    have hlimit : 1 ≤ hopLimit budget depth h xs := by
      unfold hopLimit
      split <;> omega
    obtain ⟨hlength, hpre, hempty, hcases⟩ := step_cases (levels db g q root (h + 1)).2 hlimit hfits
      (show hopRows db g q budget root depth h xs x = _ from rfl)
    rw [hrows, walkHops_hop htime hfits hroom]
    by_cases hnil : hopRows db g q budget root depth h xs x = []
    · rw [if_pos (List.isEmpty_iff.mpr hnil)]
      exact ⟨_, rfl, outcome_empty hrows hall hroom hroot hle (hempty hnil)⟩
    rw [if_neg fun h => hnil (List.isEmpty_iff.mp h)]
    obtain hlast | hmore := Nat.lt_or_ge depth (h + 1)
    · -- the probe past the depth
      obtain rfl : hops = 0 := by omega
      rw [hopLimit, if_pos hlast] at hlength
      obtain ⟨y, hy⟩ := List.length_eq_one_iff.mp
        (Nat.le_antisymm hlength (List.length_pos_of_ne_nil hnil))
      rw [hy] at hpre ⊢
      exact ⟨_, rfl, outcome_probed hrows hall hroom hroot (by omega)
        (hpre.subset (List.mem_singleton_self y))⟩
    have hrest : hopLimit budget depth h xs = budget.maxNodes + 1 - (xs.length + 1) :=
      if_neg (Nat.not_lt.mpr hmore)
    rw [hrest] at hlength hcases
    obtain ⟨hwhole, hwithin⟩ | ⟨ys, y, hcut, hwithin, hstop'⟩ := hcases
    · -- the level is whole
      have hids : (hopRows db g q budget root depth h xs x).map (·.node.id) =
          (levels db g q root (h + 1)).2.map GraphNode.id := by
        rw [hwhole, sized_ids]
      have hnext : complete db g q budget root (h + 2) =
          xs ++ [x] ++ hopRows db g q budget root depth h xs x := by
        rw [complete_next hrows, hwhole]
        rfl
      have hlater : ∀ r ∈ complete db g q budget root (h + 2),
          r.cumulativeBytes ≤ budget.maxBytes := by
        rw [hnext, ← hrows]
        exact List.forall_mem_append.mpr ⟨hall, hwithin⟩
      have hroom' : (complete db g q budget root (h + 2)).length ≤ budget.maxNodes + 1 := by
        rw [hnext, List.length_append, List.length_append, List.length_singleton]
        omega
      rw [hids, ← hnext]
      exact ih (h + 1) (by omega) (by omega)
        (fun r hr => hlater r (List.dropLast_subset _ hr)) hroom'
    · -- a limit cut the level
      rw [hcut] at hpre hlength ⊢
      have hend : budget.maxBytes < y.cumulativeBytes ∨
          (xs ++ [x] ++ ys).length = budget.maxNodes := by
        refine hstop'.imp id fun heq => ?_
        rw [hcut, List.length_append, List.length_singleton] at heq
        rw [List.length_append, List.length_append, List.length_singleton]
        omega
      rw [← List.append_assoc, walkHops_stop hend]
      exact ⟨_, rfl, outcome_stopped hrows hall hroom hmore hpre hwithin hlength hend⟩

/-! ## The answer -/

/-- What a bounded answer is to a full closure: its first part, with a limit that tells
whether there is more. `past` says that a node lies one hop past the depth. -/
structure Refines (budget : ClosureBudget) (full : List TopologyNode) (past : Prop)
    (nodes : List TopologyNode) (limitHit : Option ClosureLimit) : Prop where
  firstPart : nodes <+: full
  nodes_le : nodes.length ≤ budget.maxNodes
  none_iff : limitHit = none ↔ nodes = full ∧ ¬past
  hop_iff : limitHit = some .hopLimit ↔ nodes = full ∧ past

variable (hroot : root ∈ g.nodes) (htenant : root.tenantId = q.tenantId)
include hroot htenant

variable (budget) in
theorem full_eq_complete : traversalSql db g q root.id depth =
    (complete db g q budget root (depth + 1)).map
      fun r => topologyNode r.node r.node.properties r.depth r.via := by
  rw [traversalSql_eq_levels db hroot htenant, complete_nodes]

/-- What the cut makes of the walk's rows refines the full closure. -/
theorem cut_outcome {rows : List ClosureRow} (hfits : rowBytes db root ≤ budget.maxBytes)
    (hpos : 1 ≤ budget.maxNodes) (h : WalkOutcome db g q budget root depth rows) :
    Refines budget (traversalSql db g q root.id depth)
      (∃ i, Dist (StepTo g q) root.id (depth + 1) i)
      (cutClosureRows budget depth [] rows).1 (cutClosureRows budget depth [] rows).2 := by
  have hfull : ∀ rows, rows <+: complete db g q budget root (depth + 1) →
      (∀ r ∈ rows, r.cumulativeBytes ≤ budget.maxBytes) →
      rows.map closureRowToNode = rows.map
        fun r => topologyNode r.node r.node.properties r.depth r.via := fun rows hpre hbytes =>
    List.map_congr_left fun r hr => closureRowToNode_complete (hpre.subset hr) (hbytes r hr)
  have hdepth : ∀ r ∈ complete db g q budget root (depth + 1), r.depth ≤ depth := fun r hr =>
    Nat.le_of_lt_succ (complete_depth hr)
  rw [full_eq_complete budget hroot htenant]
  cases h with
  | whole hbytes hnodes hnone =>
    have hcut := cut_within [] [] hdepth hbytes (by simpa using hnodes)
    rw [List.append_nil, List.nil_append, hfull _ (List.prefix_refl _) hbytes] at hcut
    rw [hcut, cutClosureRows]
    refine ⟨List.prefix_refl _, by rwa [List.length_map], ⟨fun _ => ⟨rfl, fun ⟨i, hi⟩ => hnone i hi⟩,
      fun _ => rfl⟩, ⟨fun h => (by cases h), fun h => absurd h.2 (not_exists.mpr hnone)⟩⟩
  | probed x hx hbytes hnodes hsome =>
    have hcut := cut_within [] [x] hdepth hbytes (by simpa using hnodes)
    rw [List.nil_append, hfull _ (List.prefix_refl _) hbytes] at hcut
    rw [hcut, cutClosureRows, if_pos hx]
    exact ⟨List.prefix_refl _, by rwa [List.length_map], ⟨fun h => (by cases h), fun h => absurd hsome h.2⟩,
      ⟨fun _ => ⟨rfl, hsome⟩, fun _ => rfl⟩⟩
  | stopped xs x hpre hbytes hnodes hstop =>
    have hxs : xs <+: complete db g q budget root (depth + 1) := (List.prefix_append xs [x]).trans hpre
    have hx := hpre.subset (List.mem_append_right xs (List.mem_singleton_self x))
    have hcut := cut_within [] [x] (fun r hr => hdepth r (hxs.subset hr)) hbytes (by simpa using hnodes)
    rw [List.nil_append, hfull xs hxs hbytes] at hcut
    -- what is kept is shorter than the full closure
    have hshort : xs.length < (complete db g q budget root (depth + 1)).length := by
      have hle := hpre.length_le
      rw [List.length_append, List.length_singleton] at hle
      exact hle
    have hne : xs.map (fun r => topologyNode r.node r.node.properties r.depth r.via) ≠
        (complete db g q budget root (depth + 1)).map
          fun r => topologyNode r.node r.node.properties r.depth r.via := by
      intro heq
      have hlength := congrArg List.length heq
      rw [List.length_map, List.length_map] at hlength
      omega
    obtain ⟨limit, hlimit, hkind⟩ : ∃ limit, cutClosureRows budget depth [] (xs ++ [x]) =
        (xs.map (fun r => topologyNode r.node r.node.properties r.depth r.via), some limit) ∧
          limit ≠ .hopLimit := by
      rw [hcut, cutClosureRows, if_neg (Nat.not_lt.mpr (hdepth x hx)), List.length_map]
      by_cases hnil : xs = []
      · -- the row past a limit cannot be the root, which fits
        subst hnil
        obtain hover | hzero := hstop
        · have hone : complete db g q budget root 1 <+: complete db g q budget root (depth + 1) :=
            complete_mono (by omega)
          have hfirst : [x] = complete db g q budget root 1 :=
            (List.prefix_of_prefix_length_le hpre hone (Nat.le_refl 1)).eq_of_length rfl
          have hbytes : x.cumulativeBytes = 0 + rowBytes db root := by
            rw [show complete db g q budget root 1 = [_] from rfl] at hfirst
            rw [List.head_eq_of_cons_eq hfirst]
            rfl
          omega
        · exact absurd hzero.symm (Nat.ne_of_gt hpos)
      · have hkept : xs.map (fun r => topologyNode r.node r.node.properties r.depth r.via) ≠ [] :=
          fun h => hnil (List.map_eq_nil_iff.mp h)
        by_cases hover : budget.maxBytes < x.cumulativeBytes
        · exact ⟨.byteLimit, if_pos ⟨hkept, hover⟩, by decide⟩
        · refine ⟨.nodeLimit, ?_, by decide⟩
          rw [if_neg fun h => hover h.2, if_pos (Nat.le_of_eq (hstop.resolve_left hover).symm)]
    rw [hlimit]
    exact ⟨hxs.map _, by rwa [List.length_map], ⟨fun h => (by cases h), fun h => absurd h.1 hne⟩,
      ⟨fun h => absurd (Option.some.inj h) hkind, fun h => absurd h.1 hne⟩⟩

omit hroot in
theorem closureAnchorSql_eq (hroot : root ∈ g.nodes) :
    closureAnchorSql db g q root.id budget.maxBytes = complete db g q budget root 1 := by
  have hnodup : g.nodes.Nodup := g.node_ids.of_map
  have hfilter : (g.nodes.filter fun n => n.id = root.id && n.tenantId = q.tenantId) = [root] := by
    refine List.perm_singleton.mp ((List.perm_ext_iff_of_nodup (hnodup.filter _) (List.nodup_singleton root)).mpr
      fun n => ?_)
    rw [List.mem_filter, List.mem_singleton]
    constructor
    · rintro ⟨hn, h⟩
      exact Graph.node_unique hn hroot (by simpa using h : n.id = root.id ∧ _).1
    · rintro rfl
      exact ⟨hroot, by simp [htenant]⟩
  rw [closureAnchorSql, hfilter]
  show [_] = [_]
  simp [bytesOf, complete, levelVia]

variable (db budget depth) in
/-- The bounded walk ends in one of the ways, whenever the root fits or not. -/
theorem boundedWalk_outcome {inTime : Nat → Bool} (htime : ∀ i, inTime i = true) :
    ∃ rows, boundedWalk db g q budget inTime root.id depth = some rows ∧
      WalkOutcome db g q budget root depth rows := by
  have hone : (complete db g q budget root 1).length = 1 := rfl
  obtain ⟨rows, hrows, houtcome⟩ := walkHops_outcome db budget hroot htime
    (depth + 1) 0 rfl (Nat.le_add_left 1 depth) (fun r hr => by cases hr) (by rw [hone]; omega)
  refine ⟨rows, ?_, houtcome⟩
  rw [boundedWalk, htime, closureAnchorSql_eq htenant hroot]
  exact hrows

/-- A root past the byte budget ends the walk, and is answered without its properties. -/
theorem boundedWalk_large {inTime : Nat → Bool} (htime : ∀ i, inTime i = true)
    (hlarge : budget.maxBytes < rowBytes db root) :
    boundedWalk db g q budget inTime root.id depth =
      some [⟨root, none, 0, none, 0 + rowBytes db root⟩] := by
  have hsum : budget.maxBytes < 0 + rowBytes db root := by omega
  have hone : complete db g q budget root 1 = [] ++ [⟨root, none, 0, none, 0 + rowBytes db root⟩] := by
    show [(⟨root, if 0 + rowBytes db root ≤ budget.maxBytes then _ else none, 0, none,
      0 + rowBytes db root⟩ : ClosureRow)] = _
    rw [if_neg (Nat.not_le.mpr hsum)]
    rfl
  rw [boundedWalk, htime, closureAnchorSql_eq htenant hroot, hone]
  exact walkHops_stop (.inl hsum)

end Bounded

/-! ## The two verbs -/

theorem resolveNode_ok {g : Graph} {tenantId : Nat} {name : String} {kind : Option String}
    {n : GraphNode} (h : resolveNode g tenantId name kind = .ok n) :
    n ∈ g.nodes ∧ n.tenantId = tenantId ∧ isLegacyScope n.sourceScope = false := by
  have hcandidate : ∀ x ∈ g.nodes.filter (fun n => n.tenantId = tenantId && n.name = name &&
      !isLegacyScope n.sourceScope && kind.all (n.kind = ·)),
      x ∈ g.nodes ∧ x.tenantId = tenantId ∧ isLegacyScope x.sourceScope = false := by
    intro x hx
    obtain ⟨hmem, hrule⟩ := List.mem_filter.mp hx
    simp only [Bool.and_eq_true, decide_eq_true_eq, Bool.not_eq_true'] at hrule
    exact ⟨hmem, hrule.1.1.1, hrule.1.2⟩
  unfold resolveNode at h
  generalize g.nodes.filter _ = candidates at h hcandidate
  match candidates with
  | [] => cases h
  | [x] =>
    obtain rfl : x = n := Except.ok.inj h
    exact hcandidate x List.mem_cons_self
  | _ :: _ :: _ =>
    simp only at h
    split at h <;> cases h

section Main
variable {κ : Type} [LinearOrder κ] (db : Database κ) (g : Graph) (inTime : Nat → Bool)
  (request : ClosureRequest) (budget : ClosureBudget)

/-- A node lies one hop past the depth of the request. -/
def PastDepth : Prop :=
  ∃ more, traverse db g { request with depth := request.depth + 1 } = .ok more ∧
    ∃ t ∈ more, t.depth = request.depth + 1

variable {db g request} in
theorem traverse_ok {full : List TopologyNode} (h : traverse db g request = .ok full) :
    ∃ q root, request.params = .ok q ∧ resolveNode g request.tenantId request.name request.kind = .ok root ∧
      q.tenantId = request.tenantId ∧ full = traversalSql db g q root.id request.depth := by
  unfold traverse at h
  cases hparams : request.params with
  | error e => rw [hparams] at h; cases h
  | ok q =>
    cases hroot : resolveNode g request.tenantId request.name request.kind with
    | error e => rw [hparams, hroot] at h; cases h
    | ok root =>
      rw [hparams, hroot] at h
      refine ⟨q, root, rfl, rfl, ?_, (Except.ok.inj h).symm⟩
      unfold ClosureRequest.params at hparams
      split at hparams
      · cases hparams
      · rw [← Except.ok.inj hparams]

variable {db g request} in
theorem pastDepth_iff {q : WalkParams} {root : GraphNode} (hroot : root ∈ g.nodes)
    (htenant : root.tenantId = q.tenantId) (hparams : request.params = .ok q)
    (hresolve : resolveNode g request.tenantId request.name request.kind = .ok root) :
    PastDepth db g request ↔ ∃ i, Dist (StepTo g q) root.id (request.depth + 1) i := by
  have hmore : traverse db g { request with depth := request.depth + 1 } =
      .ok (traversalSql db g q root.id (request.depth + 1)) := by
    have hsame : ({ request with depth := request.depth + 1 } : ClosureRequest).params = .ok q := hparams
    rw [traverse, hsame]
    show (resolveNode g request.tenantId request.name request.kind >>= _) = _
    rw [hresolve]
    rfl
  unfold PastDepth
  rw [hmore]
  constructor
  · rintro ⟨more, heq, t, ht, hdepth⟩
    obtain rfl := Except.ok.inj heq
    obtain ⟨k, -, n, via, -, hshown, rfl⟩ := (mem_traversalSql db hroot htenant).mp ht
    obtain rfl : k = request.depth + 1 := hdepth
    exact ⟨n.id, hshown.dist⟩
  · rintro ⟨i, hi⟩
    obtain ⟨n, hn, rfl⟩ := exists_node hroot hi.1
    have hlevel := ((levels_spec (q := q) db hroot (request.depth + 1)).2 n).mpr ⟨hn, hi⟩
    refine ⟨_, rfl, topologyNode n n.properties (request.depth + 1) _,
      (mem_traversalSql db hroot htenant).mpr ⟨request.depth + 1, Nat.le_refl _, n, _, hn,
        levelVia_shown db hroot hlevel, rfl⟩, rfl⟩

/-- When the time does not run out, the two verbs refuse alike, and the bounded answer is a
first part of the full closure whose limit tells whether there is more. A root that alone
is larger than the byte budget is answered by itself, without its properties. -/
theorem bounded_refines_closure (htime : ∀ i, inTime i = true)
    (hbudget : 1 ≤ budget.maxNodes ∧ 1 ≤ budget.maxBytes ∧ 1 ≤ budget.timeBudgetMs) :
    (∀ e, traverse db g request = .error e → boundedClosure db g inTime request budget = .error e) ∧
    ∀ full, traverse db g request = .ok full → ∃ root answer,
      resolveNode g request.tenantId request.name request.kind = .ok root ∧
      boundedClosure db g inTime request budget = .ok answer ∧
      (rowBytes db root ≤ budget.maxBytes →
        Refines budget full (PastDepth db g request) answer.nodes answer.limitHit) ∧
      (budget.maxBytes < rowBytes db root →
        answer.nodes = [topologyNode root [] 0 none] ∧ answer.limitHit = some .byteLimit) := by
  have hpositive : ¬(budget.maxNodes < 1 ∨ budget.maxBytes < 1 ∨ budget.timeBudgetMs < 1) := by omega
  constructor
  · intro e h
    unfold traverse at h
    unfold boundedClosure
    rw [if_neg hpositive, htime]
    cases hparams : request.params with
    | error e' =>
      rw [hparams] at h
      exact congrArg _ (Except.error.inj h)
    | ok q =>
      cases hroot : resolveNode g request.tenantId request.name request.kind with
      | error e' =>
        rw [hparams, hroot] at h
        exact congrArg _ (Except.error.inj h)
      | ok root =>
        rw [hparams, hroot] at h
        cases h
  · intro full h
    -- both walks start at the node that was resolved; what is left is to compare the rows
    obtain ⟨q, root, hparams, hresolve, htenant, rfl⟩ := traverse_ok h
    obtain ⟨hroot, hrootTenant, -⟩ := resolveNode_ok hresolve
    have hown : root.tenantId = q.tenantId := hrootTenant.trans htenant.symm
    obtain ⟨rows, hrows, houtcome⟩ := boundedWalk_outcome db budget request.depth hroot hown htime
    refine ⟨root, ⟨some (topologyNode root [] 0 none), (cutClosureRows budget request.depth [] rows).1,
      (cutClosureRows budget request.depth [] rows).2, request.depth, budget⟩, hresolve, ?_, ?_, ?_⟩
    · unfold boundedClosure
      rw [if_neg hpositive, hparams]
      show (if _ then _ else _) = _
      rw [htime, hresolve]
      simp only [Bool.not_true, Bool.false_eq_true, if_false, bind, Except.bind, hrows]
    · intro hfits
      rw [pastDepth_iff hroot hown hparams hresolve]
      exact cut_outcome hroot hown hfits hbudget.1 houtcome
    · intro hlarge
      rw [boundedWalk_large hroot hown htime hlarge] at hrows
      obtain rfl := Option.some.inj hrows
      -- a root above the byte limit is answered alone
      have hsum : budget.maxBytes < 0 + rowBytes db root := by omega
      have hcut : cutClosureRows budget request.depth [] [⟨root, none, 0, none, 0 + rowBytes db root⟩] =
          ([topologyNode root [] 0 none], some .byteLimit) := by
        rw [cutClosureRows, if_neg (Nat.not_lt_zero _), if_neg (fun h => h.1 rfl),
          if_neg (show ¬budget.maxNodes ≤ [].length from Nat.not_le.mpr hbudget.1), if_pos hsum]
        rfl
      rw [hcut]
      exact ⟨rfl, rfl⟩

end Main

/-! ## A budget that cuts -/

def plainDatabase : Database Nat := ⟨fun _ => 0, fun _ => "x"⟩

def stackNode (id : Nat) (kind name : String) : GraphNode :=
  ⟨id, 0, kind, name, "auto", none, [], some 5⟩

def runsOn (id fromNodeId toNodeId : Nat) : GraphEdge :=
  ⟨id, 0, fromNodeId, toNodeId, "runs-on", "auto", [], some 5⟩

/-- A guest on a host in a rack. -/
def stack : Graph :=
  ⟨[stackNode 0 "vm" "guest", stackNode 1 "host" "esx", stackNode 2 "rack" "r7"],
    [runsOn 0 0 1, runsOn 1 1 2], by decide, by decide⟩

def stackRequest : ClosureRequest := ⟨0, "guest", false, none, 2, none, none, false⟩

def stackClosure : List TopologyNode :=
  [topologyNode (stackNode 0 "vm" "guest") [] 0 none,
    topologyNode (stackNode 1 "host" "esx") [] 1 (some (0, runsOn 0 0 1)),
    topologyNode (stackNode 2 "rack" "r7") [] 2 (some (1, runsOn 1 1 2))]

/-- A budget of two nodes cuts the rack off, and says so. -/
theorem bounded_refines_closure_stack : ∃ answer,
    boundedClosure plainDatabase stack (fun _ => true) stackRequest ⟨2, 4096, 5000⟩ = .ok answer ∧
      Refines ⟨2, 4096, 5000⟩ stackClosure (PastDepth plainDatabase stack stackRequest) answer.nodes
        answer.limitHit ∧
      answer.nodes = stackClosure.take 2 ∧ answer.limitHit = some .nodeLimit := by
  obtain ⟨root, answer, hroot, hanswer, hrefines, -⟩ :=
    (bounded_refines_closure plainDatabase stack (fun _ => true) stackRequest ⟨2, 4096, 5000⟩
      (fun _ => rfl) ⟨by decide, by decide, by decide⟩).2 stackClosure rfl
  obtain rfl : stackNode 0 "vm" "guest" = root := Except.ok.inj hroot
  refine ⟨answer, hanswer, hrefines (by decide), ?_⟩
  obtain rfl := Except.ok.inj hanswer
  exact ⟨rfl, rfl⟩

/-! ## A root past the budget -/

/-- A host without properties and without edges. -/
def loneHost : GraphNode := ⟨0, 0, "host", "esx", "auto", none, [], none⟩

def loneGraph : Graph := ⟨[loneHost], [], by decide, by decide⟩

def loneRequest : ClosureRequest := ⟨0, "esx", true, none, 1, none, none, true⟩

/-- The host is the whole closure and nothing lies past the depth, yet the answer has a
limit: the host alone is larger than a budget of one byte. -/
theorem lone_root_past_budget :
    ∃ answer, traverse plainDatabase loneGraph loneRequest = .ok answer.nodes ∧
      boundedClosure plainDatabase loneGraph (fun _ => true) loneRequest ⟨1, 1, 1⟩ = .ok answer ∧
      ¬PastDepth plainDatabase loneGraph loneRequest ∧ answer.limitHit = some .byteLimit := by
  refine ⟨⟨some (topologyNode loneHost [] 0 none), [topologyNode loneHost [] 0 none], some .byteLimit, 1,
    ⟨1, 1, 1⟩⟩, rfl, rfl, ?_, rfl⟩
  rintro ⟨more, hmore, t, ht, hdepth⟩
  obtain rfl : [topologyNode loneHost [] 0 none] = more := Except.ok.inj hmore
  rw [List.mem_singleton.mp ht] at hdepth
  cases hdepth

end Meho.Topology
