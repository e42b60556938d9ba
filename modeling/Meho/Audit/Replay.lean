import Meho.Lib.Lineage
import Mathlib.Data.List.Pairwise
import Mathlib.Data.List.Sort

/- The replay of a session (audit_query/replay.py).

A recursive query collects the rows of the session and what hangs below them by parent links,
then the rows are shown as a forest. Rows whose links end at one of them hang below it. Where
the links lead into a cycle, the rows are promoted to roots in the order of their times, and a
row that hangs outside the cycle and comes before all rows above it is promoted too. It is
shown again below the root that the cycle gets (`replay_once_iff`).

The database goes on until a round of the query finds nothing, and marking goes on until a
path holds all rows; both are given a number of rounds and are shown to need no more. The
limit of the Python stack is left out.

Correspondence: `_TreeBuilder` ↔ `TreeBuilder`, its buckets of ids ↔ `children`, `rootIds` as
entries, `_mark_reached` ↔ `markReached`, a walk of `Lineage`; what is not listed keeps its
name. -/
namespace Meho.Audit.Replay
open Meho.Lib.Lineage

/-! ## The query -/

/-- A stored row, with `φ` for the columns that are only passed on. -/
structure AuditLog (φ : Type) where
  id : Nat
  occurredAt : Int
  tenantId : Option Nat
  targetId : Option Nat
  parentAuditId : Option Nat
  agentSessionId : Option Nat
  columns : φ

structure Target where
  id : Nat
  tenantId : Nat
  name : String

structure Tenant where
  id : Nat
  name : String

/-- The tables a replay reads, with their keys. -/
structure AuditDb (φ : Type) where
  logs : List (AuditLog φ)
  targets : List Target
  tenants : List Tenant
  log_ids : (logs.map (·.id)).Nodup
  target_ids : (targets.map (·.id)).Nodup
  tenant_ids : (tenants.map (·.id)).Nodup

/-- A row with the names the outer joins give it. -/
structure AuditEntry (φ : Type) where
  id : Nat
  ts : Int
  tenantId : Option Nat
  tenantName : Option String
  targetId : Option Nat
  targetName : Option String
  parentAuditId : Option Nat
  agentSessionId : Option Nat
  columns : φ

structure ReplayQuery where
  sessionId : Nat
  tenantId : Nat
  maxDepth : Nat

variable {φ : Type} (db : AuditDb φ) (q : ReplayQuery)

def buildAuditEntry (row : AuditLog φ) (targetName tenantName : Option String) : AuditEntry φ :=
  { id := row.id, ts := row.occurredAt, tenantId := row.tenantId, tenantName := tenantName
    targetId := row.targetId, targetName := targetName, parentAuditId := row.parentAuditId
    agentSessionId := row.agentSessionId, columns := row.columns }

/-- The first working table: the rows of the session, at depth 0. -/
def closureAnchor : List (Nat × Nat) :=
  (db.logs.filter fun row =>
    row.agentSessionId = some q.sessionId ∧ row.tenantId = some q.tenantId).map fun row => (row.id, 0)

/-- One round: the rows whose parent is in the working table. -/
def recursiveArm (working : List (Nat × Nat)) : List (Nat × Nat) :=
  working.flatMap fun closure => (db.logs.filter fun child =>
    child.parentAuditId = some closure.1 ∧ child.tenantId = some q.tenantId ∧
      closure.2 < q.maxDepth).map fun child => (child.id, closure.2 + 1)

/-- `UNION ALL` of the working tables of so many rounds. -/
def sessionClosure : Nat → List (Nat × Nat) → List (Nat × Nat)
  | 0, _ => []
  | rounds + 1, working => working ++ sessionClosure rounds (recursiveArm db q working)

/-- The row with its names, by the outer joins. -/
def joined (row : AuditLog φ) : AuditEntry φ :=
  buildAuditEntry row
    ((db.targets.find? fun t => row.targetId = some t.id ∧ t.tenantId = q.tenantId).map (·.name))
    ((db.tenants.find? fun t => row.tenantId = some t.id).map (·.name))

def fetchSessionClosure (rounds : Nat) : List (AuditEntry φ) :=
  (db.logs.filter fun row =>
    row.id ∈ (sessionClosure db q rounds (closureAnchor db q)).map Prod.fst).map (joined db q)

/-! ## The forest -/

inductive ReplayNode (φ : Type)
  | node (entry : AuditEntry φ) (depth : Nat) (children : List (ReplayNode φ))

namespace ReplayNode

def entry : ReplayNode φ → AuditEntry φ
  | .node e _ _ => e

def depth : ReplayNode φ → Nat
  | .node _ d _ => d

def children : ReplayNode φ → List (ReplayNode φ)
  | .node _ _ cs => cs

end ReplayNode

mutual

/-- The node and what is below it. -/
def ReplayNode.nodes : ReplayNode φ → List (ReplayNode φ)
  | .node e d cs => .node e d cs :: forestNodes cs

def forestNodes : List (ReplayNode φ) → List (ReplayNode φ)
  | [] => []
  | n :: ns => n.nodes ++ forestNodes ns

end

/-- `(entry.ts, entry.id)` in order. -/
def sortsBefore (a b : AuditEntry φ) : Prop := a.ts < b.ts ∨ a.ts = b.ts ∧ a.id ≤ b.id

instance : DecidableRel (sortsBefore (φ := φ)) :=
  fun a b => inferInstanceAs (Decidable (a.ts < b.ts ∨ a.ts = b.ts ∧ a.id ≤ b.id))

/-- The rows a tree is built of, and its depth limit. -/
structure TreeBuilder (φ : Type) where
  maxDepth : Nat
  entries : List (AuditEntry φ)

namespace TreeBuilder
variable (b : TreeBuilder φ)

/-- The row in whose bucket a row is; without one it is a root. -/
def bucket (e : AuditEntry φ) : Option Nat :=
  e.parentAuditId.filter fun p => p ∈ b.entries.map (·.id) ∧ p ≠ e.id

def children (id : Nat) : List (AuditEntry φ) := b.entries.filter fun e => b.bucket e = some id

def rootIds : List (AuditEntry φ) := b.entries.filter fun e => b.bucket e = none

def markReached (steps id : Nat) : List Nat :=
  visit (fun p => (b.children p).map (·.id)) steps id [id]

/-- The node with what is below it, `left` levels in front of the cap. -/
def render : (left depth : Nat) → AuditEntry φ → List Nat → ReplayNode φ
  | 0, depth, e, _ => .node e depth []
  | left + 1, depth, e, seen =>
    .node e depth (((b.children e.id).insertionSort sortsBefore).flatMap fun child =>
      if child.id ∈ seen then [] else [render left (depth + 1) child (child.id :: seen)])

/-- The roots, in their order: the natural ones, then the promoted ones. -/
def roots (steps : Nat) : List (AuditEntry φ) :=
  let natural := b.rootIds.insertionSort sortsBefore
  let reached := natural.flatMap fun root => b.markReached steps root.id
  let orphans := (b.entries.filter fun e => e.id ∉ reached).insertionSort sortsBefore
  natural ++ promoted (·.id) (b.markReached steps) orphans reached

def buildForest (steps : Nat) : List (ReplayNode φ) :=
  (b.roots steps).map fun root => b.render b.maxDepth 0 root [root.id]

end TreeBuilder

def assembleTree (rows : List (AuditEntry φ)) (steps maxDepth : Nat) : List (ReplayNode φ) :=
  TreeBuilder.buildForest ⟨maxDepth, rows⟩ steps

def replaySession (rounds steps : Nat) : List (ReplayNode φ) :=
  assembleTree (fetchSessionClosure db q rounds) steps q.maxDepth

/-! ## What is asked of it -/

/-- A row of the tenant, `k` parent links below a row of the session. -/
inductive Reached : Nat → AuditLog φ → Prop
  | anchor {row} : row ∈ db.logs → row.agentSessionId = some q.sessionId →
      row.tenantId = some q.tenantId → Reached 0 row
  | link {k p row} : Reached k p → row ∈ db.logs → row.tenantId = some q.tenantId →
      row.parentAuditId = some p.id → Reached (k + 1) row

def Fetched (row : AuditLog φ) : Prop := ∃ k ≤ q.maxDepth, Reached db q k row

/-- Among the fetched rows, `k` links lead from the first to the other. -/
inductive Above : Nat → AuditLog φ → AuditLog φ → Prop
  | refl {x} : Fetched db q x → Above 0 x x
  | link {k x y z} : Above k x y → Fetched db q z → y.parentAuditId = some z.id → z.id ≠ y.id →
      Above (k + 1) x z

/-- The forest shows every fetched row that is not too deep, once. -/
structure ReplaysOnce (forest : List (ReplayNode φ)) : Prop where
  rows : ∀ n ∈ forestNodes forest, ∃ row, Fetched db q row ∧ n.entry = joined db q row
  once : ((forestNodes forest).map (·.entry.id)).Nodup
  /-- Shown is what is not too far below its root. -/
  shown : ∀ row, Fetched db q row → (row.id ∈ (forestNodes forest).map (·.entry.id) ↔
    ∃ root ∈ forest, ∃ k ≤ q.maxDepth, ∃ z, Above db q k row z ∧ z.id = root.entry.id)
  rooted : ∀ row, Fetched db q row → ∃ root ∈ forest, ∃ k z, Above db q k row z ∧
    z.id = root.entry.id
  roots : ∀ n ∈ forest, n.depth = 0
  linked : ∀ n ∈ forestNodes forest, ∀ c ∈ n.children, c.depth = n.depth + 1 ∧
    c.entry.parentAuditId = some n.entry.id
  sorted : ∀ n ∈ forestNodes forest, (n.children.map (·.entry)).Pairwise sortsBefore

/-- A row whose links never end, and that comes before every other row above it. -/
def Promoted (r : AuditLog φ) : Prop :=
  Fetched db q r ∧ (∀ k, ∃ y, Above db q k r y) ∧
    ∀ k y, Above db q k r y → sortsBefore (joined db q r) (joined db q y)

/-- No promoted row is shown below another one. -/
def PromotedApart : Prop :=
  ∀ r t, Promoted db q r → Promoted db q t → r.id ≠ t.id → ∀ k ≤ q.maxDepth, ¬Above db q k t r

/-! ## The fetched rows -/

section Fetch
variable {db q}

theorem Reached.mem {k : Nat} {row : AuditLog φ} (h : Reached db q k row) : row ∈ db.logs := by
  cases h with
  | anchor hrow => exact hrow
  | link _ hrow => exact hrow

theorem Fetched.mem {row : AuditLog φ} (h : Fetched db q row) : row ∈ db.logs := by
  obtain ⟨k, -, hrow⟩ := h
  exact hrow.mem

theorem eq_of_id {x y : AuditLog φ} (hx : x ∈ db.logs) (hy : y ∈ db.logs) (h : x.id = y.id) :
    x = y := List.inj_on_of_nodup_map db.log_ids hx hy h

/-- A round of the query holds the rows that are as many links below the session. -/
theorem mem_round {k : Nat} {w : Nat × Nat} : w ∈ (recursiveArm db q)^[k] (closureAnchor db q) ↔
    w.2 = k ∧ k ≤ q.maxDepth ∧ ∃ row, Reached db q k row ∧ row.id = w.1 := by
  induction k generalizing w with
  | zero =>
    simp only [Function.iterate_zero, id, closureAnchor, List.mem_map, List.mem_filter,
      decide_eq_true_eq]
    constructor
    · rintro ⟨row, ⟨hrow, hsession, htenant⟩, rfl⟩
      exact ⟨rfl, Nat.zero_le _, row, .anchor hrow hsession htenant, rfl⟩
    · rintro ⟨hdepth, -, row, h, hid⟩
      cases h with
      | anchor hrow hsession htenant =>
        exact ⟨row, ⟨hrow, hsession, htenant⟩, Prod.ext hid hdepth.symm⟩
  | succ k ih =>
    rw [Function.iterate_succ_apply']
    simp only [recursiveArm, List.mem_flatMap, List.mem_map, List.mem_filter, decide_eq_true_eq]
    constructor
    · rintro ⟨v, hv, child, ⟨hchild, hparent, htenant, hdepth⟩, rfl⟩
      obtain ⟨rfl, -, p, hp, hid⟩ := ih.1 hv
      rw [← hid] at hparent
      exact ⟨rfl, hdepth, child, hp.link hchild htenant hparent, rfl⟩
    · rintro ⟨hdepth, hle, row, h, hid⟩
      cases h with
      | link hp hrow htenant hparent =>
        rename_i p
        refine ⟨(p.id, k), ih.2 ⟨rfl, by omega, p, hp, rfl⟩, row, ⟨hrow, hparent, htenant, ?_⟩, ?_⟩
        · show k < q.maxDepth
          omega
        · exact Prod.ext hid hdepth.symm

theorem mem_sessionClosure {rounds : Nat} {working : List (Nat × Nat)} {w : Nat × Nat} :
    w ∈ sessionClosure db q rounds working ↔ ∃ k < rounds, w ∈ (recursiveArm db q)^[k] working := by
  induction rounds generalizing working with
  | zero => simp [sessionClosure]
  | succ rounds ih =>
    rw [sessionClosure, List.mem_append, ih]
    constructor
    · rintro (h | ⟨k, hk, h⟩)
      · exact ⟨0, Nat.succ_pos _, h⟩
      · exact ⟨k + 1, Nat.succ_lt_succ hk, h⟩
    · rintro ⟨k, hk, h⟩
      cases k with
      | zero => exact .inl h
      | succ k => exact .inr ⟨k, Nat.lt_of_succ_lt_succ hk, h⟩

theorem mem_closure_ids {rounds : Nat} (hrounds : q.maxDepth < rounds) {row : AuditLog φ}
    (hrow : row ∈ db.logs) :
    row.id ∈ (sessionClosure db q rounds (closureAnchor db q)).map Prod.fst ↔ Fetched db q row := by
  simp only [List.mem_map, mem_sessionClosure, mem_round]
  constructor
  · rintro ⟨w, ⟨k, -, -, hk, p, hp, hid⟩, hw⟩
    exact ⟨k, hk, eq_of_id hp.mem hrow (hid.trans hw) ▸ hp⟩
  · rintro ⟨k, hk, h⟩
    exact ⟨(row.id, k), ⟨k, by omega, rfl, hk, row, h, rfl⟩, rfl⟩

/-- More rounds find nothing more. -/
theorem fetch_rounds {rounds rounds' : Nat} (h : q.maxDepth < rounds) (h' : q.maxDepth < rounds') :
    fetchSessionClosure db q rounds = fetchSessionClosure db q rounds' := by
  refine congrArg (List.map (joined db q)) (List.filter_congr fun row hrow => ?_)
  rw [decide_eq_decide, mem_closure_ids h hrow, mem_closure_ids h' hrow]

theorem mem_fetch {rounds : Nat} (h : q.maxDepth < rounds) {e : AuditEntry φ} :
    e ∈ fetchSessionClosure db q rounds ↔ ∃ row, Fetched db q row ∧ e = joined db q row := by
  simp only [fetchSessionClosure, List.mem_map, List.mem_filter, decide_eq_true_eq]
  constructor
  · rintro ⟨row, ⟨hrow, hmem⟩, rfl⟩
    exact ⟨row, (mem_closure_ids h hrow).1 (List.mem_map.2 hmem), rfl⟩
  · rintro ⟨row, hrow, rfl⟩
    exact ⟨row, ⟨hrow.mem, List.mem_map.1 ((mem_closure_ids h hrow.mem).2 hrow)⟩, rfl⟩

theorem fetch_ids (rounds : Nat) : ((fetchSessionClosure db q rounds).map (·.id)).Nodup := by
  rw [fetchSessionClosure, List.map_map]
  exact db.log_ids.sublist (List.filter_sublist.map _)

theorem length_fetch_le (rounds : Nat) : (fetchSessionClosure db q rounds).length ≤ db.logs.length := by
  rw [fetchSessionClosure, List.length_map]
  exact List.length_filter_le _ _

end Fetch

/-! ## The builder -/

namespace TreeBuilder
variable {b : TreeBuilder φ}

/-- The link of the row with an id, to the row in whose bucket it is. -/
def link (b : TreeBuilder φ) (id : Nat) : Option Nat :=
  (b.entries.find? fun e => e.id = id).bind b.bucket

theorem bucket_eq_some {e : AuditEntry φ} {p : Nat} : b.bucket e = some p ↔
    e.parentAuditId = some p ∧ p ∈ b.entries.map (·.id) ∧ p ≠ e.id := by
  rw [bucket, Option.filter_eq_some_iff, decide_eq_true_eq]

theorem mem_of_link {id p : Nat} (h : b.link id = some p) :
    id ∈ b.entries.map (·.id) ∧ p ∈ b.entries.map (·.id) := by
  obtain ⟨e, he, hbucket⟩ := Option.bind_eq_some_iff.1 h
  have hid : e.id = id := by simpa using List.find?_some he
  exact ⟨List.mem_map.2 ⟨e, List.mem_of_find?_eq_some he, hid⟩, (bucket_eq_some.1 hbucket).2.1⟩

theorem mem_of_leads {x y : Nat} (hx : x ∈ b.entries.map (·.id)) (h : Leads b.link x y) :
    y ∈ b.entries.map (·.id) := by
  obtain ⟨k, hk⟩ := h
  cases k with
  | zero => exact Option.some.inj hk ▸ hx
  | succ k =>
    obtain ⟨z, -, hlink⟩ := Option.bind_eq_some_iff.1 hk
    exact (mem_of_link hlink).2

section Ids
variable (hids : (b.entries.map (·.id)).Nodup)
include hids

theorem link_of_mem {e : AuditEntry φ} (he : e ∈ b.entries) : b.link e.id = b.bucket e := by
  have hfind : b.entries.find? (fun f => f.id = e.id) = some e := by
    cases hfind : b.entries.find? (fun f => f.id = e.id) with
    | none => simpa using List.find?_eq_none.1 hfind e he
    | some f =>
      have hid : f.id = e.id := by simpa using List.find?_some hfind
      rw [List.inj_on_of_nodup_map hids (List.mem_of_find?_eq_some hfind) he hid]
  rw [link, hfind, Option.bind_some]

theorem mem_children_ids {p x : Nat} : x ∈ (b.children p).map (·.id) ↔ b.link x = some p := by
  simp only [children, List.mem_map, List.mem_filter, decide_eq_true_eq]
  constructor
  · rintro ⟨e, ⟨he, hbucket⟩, rfl⟩
    rw [link_of_mem hids he, hbucket]
  · intro h
    obtain ⟨e, he, rfl⟩ := List.mem_map.1 (mem_of_link h).1
    rw [link_of_mem hids he] at h
    exact ⟨e, ⟨he, h⟩, rfl⟩

theorem children_ids (p : Nat) : ((b.children p).map (·.id)).Nodup :=
  hids.sublist (List.filter_sublist.map _)

theorem mem_markReached {steps : Nat} (hsteps : b.entries.length ≤ steps) (x y : Nat) :
    y ∈ b.markReached steps x ↔ Leads b.link y x := by
  rw [markReached, mem_visit fun p x => mem_children_ids hids]
  constructor
  · rintro ⟨k, -, hk⟩
    exact ⟨k, hk⟩
  · intro h
    have hpoints : ∀ z, (b.link z).isSome → z ∈ b.entries.map (·.id) := by
      intro z hz
      obtain ⟨p, hp⟩ := Option.isSome_iff_exists.1 hz
      exact (mem_of_link hp).1
    obtain ⟨k, hk, hup⟩ := h.short hpoints
    rw [List.length_map] at hk
    exact ⟨k, by omega, hup⟩

end Ids

/-- The children in the order in which they are rendered. -/
def sortedIds (b : TreeBuilder φ) (p : Nat) : List Nat :=
  ((b.children p).insertionSort sortsBefore).map (·.id)

theorem sortedIds_perm (p : Nat) : (b.sortedIds p).Perm ((b.children p).map (·.id)) :=
  (List.perm_insertionSort _ _).map _

theorem forestNodes_eq (ns : List (ReplayNode φ)) : forestNodes ns = ns.flatMap (·.nodes) := by
  induction ns with
  | nil => rfl
  | cons n ns ih => rw [forestNodes, ih, List.flatMap_cons]

/-- The rendered rows are those of the walk. -/
theorem render_ids (left depth : Nat) (e : AuditEntry φ) (seen : List Nat) :
    ((b.render left depth e seen).nodes).map (·.entry.id) = visit b.sortedIds left e.id seen := by
  induction left generalizing depth e seen with
  | zero => rfl
  | succ left ih =>
    rw [render, ReplayNode.nodes, forestNodes_eq, visit, sortedIds, List.map_cons, List.flatMap_map,
      List.flatMap_assoc, List.map_flatMap]
    refine congrArg (e.id :: ·) (List.flatMap_congr fun child _ => ?_)
    by_cases hseen : child.id ∈ seen
    · simp [hseen]
    · simp [hseen, ih]

theorem render_entry (left depth : Nat) (e : AuditEntry φ) (seen : List Nat) :
    (b.render left depth e seen).entry = e ∧ (b.render left depth e seen).depth = depth := by
  cases left <;> exact ⟨rfl, rfl⟩

theorem sortsBefore_total (e f : AuditEntry φ) : sortsBefore e f ∨ sortsBefore f e := by
  simp only [sortsBefore]
  omega

theorem sortsBefore_trans {e f g : AuditEntry φ} (h : sortsBefore e f) (h' : sortsBefore f g) :
    sortsBefore e g := by
  simp only [sortsBefore] at *
  omega

theorem sorted (es : List (AuditEntry φ)) : (es.insertionSort sortsBefore).Pairwise sortsBefore :=
  have : Std.Total (sortsBefore (φ := φ)) := ⟨sortsBefore_total⟩
  have : IsTrans (AuditEntry φ) sortsBefore := ⟨fun _ _ _ => sortsBefore_trans⟩
  List.pairwise_insertionSort _ es

/-- What a node says of its row and of its children. -/
def Placed (b : TreeBuilder φ) (n : ReplayNode φ) : Prop :=
  n.entry ∈ b.entries ∧ (n.children.map (·.entry)).Pairwise sortsBefore ∧
    ∀ c ∈ n.children, c.depth = n.depth + 1 ∧ c.entry.parentAuditId = some n.entry.id

theorem render_placed {left depth : Nat} {e : AuditEntry φ} {seen : List Nat} (he : e ∈ b.entries) :
    ∀ n ∈ (b.render left depth e seen).nodes, b.Placed n := by
  induction left generalizing depth e seen with
  | zero =>
    intro n hn
    obtain rfl := List.mem_singleton.1 hn
    exact ⟨he, List.Pairwise.nil, nofun⟩
  | succ left ih =>
    intro n hn
    rw [render, ReplayNode.nodes, forestNodes_eq, List.mem_cons, List.mem_flatMap] at hn
    have hchild : ∀ child ∈ (b.children e.id).insertionSort sortsBefore,
        child ∈ b.entries ∧ b.bucket child = some e.id := by
      intro child hchild
      simpa [children] using (List.mem_insertionSort _).1 hchild
    rcases hn with rfl | ⟨c, hc, hn⟩
    · refine ⟨he, ?_, ?_⟩
      · -- the entries of the children are those of the bucket but the seen ones
        show (List.map _ (List.flatMap _ _)).Pairwise sortsBefore
        rw [List.map_flatMap]
        refine (sorted (b.children e.id)).sublist ?_
        generalize (b.children e.id).insertionSort sortsBefore = xs
        induction xs with
        | nil => exact List.Sublist.slnil
        | cons x xs ihx =>
          rw [List.flatMap_cons]
          split
          · exact ihx.cons x
          · rw [List.map_singleton, (render_entry _ _ _ _).1]
            exact ihx.cons_cons x
      · intro c hc
        obtain ⟨child, hmem, hc⟩ := List.mem_flatMap.1 hc
        split at hc
        · cases hc
        · obtain rfl := List.mem_singleton.1 hc
          rw [(render_entry _ _ _ _).1, (render_entry _ _ _ _).2]
          exact ⟨rfl, (bucket_eq_some.1 (hchild child hmem).2).1⟩
    · obtain ⟨child, hmem, hc⟩ := List.mem_flatMap.1 hc
      split at hc
      · cases hc
      · obtain rfl := List.mem_singleton.1 hc
        exact ih (hchild child hmem).1 n hn

/-! ## The roots -/

/-- A row whose links never end, and that comes before every other row above it. -/
def First (b : TreeBuilder φ) (e : AuditEntry φ) : Prop :=
  (∀ k, ∃ y, up b.link k e.id = some y) ∧
    ∀ f ∈ b.entries, Leads b.link e.id f.id → sortsBefore e f

section Roots
variable {steps : Nat} (hids : (b.entries.map (·.id)).Nodup) (hsteps : b.entries.length ≤ steps)
include hids hsteps

/-- What the natural roots reach. -/
theorem mem_reached {y : Nat} :
    y ∈ (b.rootIds.insertionSort sortsBefore).flatMap (fun root => b.markReached steps root.id) ↔
      ∃ n ∈ b.entries, b.bucket n = none ∧ Leads b.link y n.id := by
  simp only [List.mem_flatMap, List.mem_insertionSort, rootIds, List.mem_filter,
    decide_eq_true_eq, mem_markReached hids hsteps, and_assoc]

theorem mem_roots {e : AuditEntry φ} :
    e ∈ b.roots steps ↔ e ∈ b.entries ∧ (b.bucket e = none ∨ b.First e) := by
  have hreached := fun y => mem_reached (y := y) hids hsteps
  rw [roots]
  generalize (b.rootIds.insertionSort sortsBefore).flatMap
    (fun root => b.markReached steps root.id) = reached at hreached
  -- what leads to a reached entry is reached, so a chain that ends in a root is reached whole
  have hclosed : ∀ y z, Leads b.link y z → z ∈ reached → y ∈ reached := by
    intro y z hleads hz
    obtain ⟨n, hn, hroot, hz⟩ := (hreached z).1 hz
    exact (hreached y).2 ⟨n, hn, hroot, hleads.trans hz⟩
  have horphan : ∀ f, f ∈ (b.entries.filter fun e => e.id ∉ reached).insertionSort sortsBefore ↔
      f ∈ b.entries ∧ f.id ∉ reached := by
    simp
  have hsorted := sorted (b.entries.filter fun e => e.id ∉ reached)
  have hnodup : (((b.entries.filter fun e => e.id ∉ reached).insertionSort sortsBefore).map
      (·.id)).Nodup :=
    ((List.perm_insertionSort _ _).map _).nodup_iff.2 (hids.sublist (List.filter_sublist.map _))
  rw [List.mem_append, mem_promoted (mem_markReached hids hsteps) hclosed]
  generalize (b.entries.filter fun e => e.id ∉ reached).insertionSort sortsBefore = orphans at *
  have hnatural : e ∈ b.rootIds.insertionSort sortsBefore ↔ e ∈ b.entries ∧ b.bucket e = none := by
    simp [rootIds]
  rw [hnatural, and_or_left]
  refine or_congr_right ⟨?_, ?_⟩
  -- promoted: its chain meets no root, for it would be reached, so it never ends
  · rintro ⟨hnew, before, after, rfl, hbefore⟩
    obtain ⟨he, -⟩ := (horphan e).1 (by simp)
    refine ⟨he, ?_, ?_⟩
    · intro k
      induction k with
      | zero => exact ⟨_, rfl⟩
      | succ k ih =>
        obtain ⟨y, hy⟩ := ih
        obtain ⟨f, hf, rfl⟩ := List.mem_map.1 (mem_of_leads (List.mem_map_of_mem he) ⟨k, hy⟩)
        show ∃ z, (up b.link k e.id).bind b.link = some z
        rw [hy, Option.bind_some, link_of_mem hids hf]
        cases hbucket : b.bucket f with
        | some p => exact ⟨p, rfl⟩
        | none => exact absurd ((hreached _).2 ⟨f, hf, hbucket, k, hy⟩) hnew
    · intro f hf hleads
      have hmem := (horphan f).2 ⟨hf, fun h => hnew (hclosed _ _ hleads h)⟩
      rcases List.mem_append.1 hmem with hmem | hmem
      · exact absurd hleads (hbefore f hmem)
      · rcases List.mem_cons.1 hmem with rfl | hmem
        · simp [sortsBefore]
        · exact List.rel_of_pairwise_cons (List.pairwise_append.1 hsorted).2.1 hmem
  -- first of an endless chain: nothing before it in the order leads to it
  · rintro ⟨he, hends, hfirst⟩
    have hnew : e.id ∉ reached := by
      intro h
      obtain ⟨n, hn, hroot, k, hk⟩ := (hreached _).1 h
      obtain ⟨y, hy⟩ := hends (k + 1)
      rw [up, hk, Option.bind_some, link_of_mem hids hn, hroot] at hy
      cases hy
    obtain ⟨before, after, rfl⟩ := List.append_of_mem ((horphan e).2 ⟨he, hnew⟩)
    refine ⟨hnew, before, after, rfl, fun z hz hleads => ?_⟩
    obtain ⟨hz', -⟩ := (horphan z).1 (List.mem_append_left _ hz)
    have hle := (List.pairwise_append.1 hsorted).2.2 z hz e List.mem_cons_self
    have hge := hfirst z hz' hleads
    rw [List.map_append, List.map_cons] at hnodup
    refine (List.nodup_append.1 hnodup).2.2 z.id (List.mem_map_of_mem hz) e.id
      List.mem_cons_self ?_
    simp only [sortsBefore] at hle hge
    omega

theorem roots_ids : ((b.roots steps).map (·.id)).Nodup := by
  obtain ⟨hnew, hnodup⟩ := promoted_new (fun e : AuditEntry φ => e.id)
    (mem_markReached hids hsteps)
  rw [roots, List.map_append, List.nodup_append]
  refine ⟨?_, hnodup, ?_⟩
  · exact ((List.perm_insertionSort _ _).map _).nodup_iff.2
      (hids.sublist (List.filter_sublist.map _))
  · intro x hx y hy heq
    obtain ⟨n, hn, rfl⟩ := List.mem_map.1 hx
    obtain ⟨e, he, rfl⟩ := List.mem_map.1 hy
    refine hnew e he (List.mem_flatMap.2 ⟨n, hn, ?_⟩)
    exact (mem_markReached hids hsteps _ _).2 (heq ▸ .refl _)

/-- Every row leads to a root. -/
theorem exists_root {e : AuditEntry φ} (he : e ∈ b.entries) :
    ∃ r ∈ b.roots steps, Leads b.link e.id r.id := by
  by_cases hmet : e.id ∈ (b.rootIds.insertionSort sortsBefore).flatMap
      (fun root => b.markReached steps root.id)
  · obtain ⟨n, hn, hroot, hleads⟩ := (mem_reached hids hsteps).1 hmet
    exact ⟨n, (mem_roots hids hsteps).2 ⟨hn, .inl hroot⟩, hleads⟩
  · have horphan : e ∈ (b.entries.filter fun e => e.id ∉ (b.rootIds.insertionSort
        sortsBefore).flatMap fun root => b.markReached steps root.id).insertionSort sortsBefore :=
      (List.mem_insertionSort _).2 (List.mem_filter.2 ⟨he, decide_eq_true hmet⟩)
    rcases promoted_covers (·.id) (mem_markReached hids hsteps) horphan with hmet' | ⟨r, hr, hleads⟩
    · exact absurd hmet' hmet
    · exact ⟨r, List.mem_append_right _ hr, hleads⟩

end Roots

theorem roots_steps {steps steps' : Nat} (hids : (b.entries.map (·.id)).Nodup)
    (h : b.entries.length ≤ steps) (h' : b.entries.length ≤ steps') :
    b.roots steps = b.roots steps' := by
  have hreached : ∀ y, y ∈ (b.rootIds.insertionSort sortsBefore).flatMap
      (fun root => b.markReached steps root.id) ↔ y ∈ (b.rootIds.insertionSort sortsBefore).flatMap
      (fun root => b.markReached steps' root.id) := by
    intro y
    rw [mem_reached hids h, mem_reached hids h']
  have hwalk : ∀ x y, y ∈ b.markReached steps x ↔ y ∈ b.markReached steps' x := by
    intro x y
    rw [mem_markReached hids h, mem_markReached hids h']
  simp only [roots, hreached]
  rw [promoted_congr hwalk hreached]

/-! ## The forest -/

section Forest
variable {steps : Nat} (hids : (b.entries.map (·.id)).Nodup)

theorem forest_ids : (forestNodes (b.buildForest steps)).map (·.entry.id) =
    (b.roots steps).flatMap fun r => visit b.sortedIds b.maxDepth r.id [r.id] := by
  rw [forestNodes_eq, buildForest, List.flatMap_map, List.map_flatMap]
  exact List.flatMap_congr fun r _ => render_ids _ _ _ _

include hids

theorem mem_sortedIds (p x : Nat) : x ∈ b.sortedIds p ↔ b.link x = some p :=
  (sortedIds_perm p).mem_iff.trans (mem_children_ids hids)

theorem mem_forest {x : Nat} : x ∈ (forestNodes (b.buildForest steps)).map (·.entry.id) ↔
    ∃ r ∈ b.roots steps, ∃ k ≤ b.maxDepth, up b.link k x = some r.id := by
  simp only [forest_ids, List.mem_flatMap, mem_visit (mem_sortedIds hids)]

/-- The rows are shown once if no root is shown below another one. -/
theorem nodup_forest (hsteps : b.entries.length ≤ steps) :
    ((forestNodes (b.buildForest steps)).map (·.entry.id)).Nodup ↔
      ∀ r ∈ b.roots steps, ∀ t ∈ b.roots steps, r.id ≠ t.id →
        ∀ k ≤ b.maxDepth, up b.link k t.id ≠ some r.id := by
  have hroots := roots_ids hids hsteps
  have hmem := fun x r : Nat => mem_visit (mem_sortedIds hids) (n := b.maxDepth) (x := x) (c := r)
  rw [forest_ids, List.nodup_flatMap]
  constructor
  · rintro ⟨-, hdisjoint⟩ r hr t ht hne k hk hup
    have : Std.Symm (Function.onFun List.Disjoint
        fun r : AuditEntry φ => visit b.sortedIds b.maxDepth r.id [r.id]) := 
      ⟨fun _ _ h x hx hx' => h hx' hx⟩
    have hapart := hdisjoint.forall hr ht fun heq => hne (congrArg _ heq)
    exact hapart ((hmem t.id r.id).2 ⟨k, hk, hup⟩) ((hmem t.id t.id).2 ⟨0, Nat.zero_le _, rfl⟩)
  · intro hapart
    refine ⟨fun r _ => ?_, ?_⟩
    · refine nodup_visit (mem_sortedIds hids) (fun p => ?_) List.mem_cons_self
      exact (sortedIds_perm p).nodup_iff.2 (children_ids hids p)
    · refine (List.Nodup.of_map _ hroots).pairwise_of_forall_ne ?_
      intro r hr t ht hne x hxr hxt
      have hne : r.id ≠ t.id := fun heq => hne (List.inj_on_of_nodup_map hroots hr ht heq)
      obtain ⟨j, hj, hxr⟩ := (hmem x r.id).1 hxr
      obtain ⟨k, hk, hxt⟩ := (hmem x t.id).1 hxt
      -- one of the two roots is below the other
      rcases up_between hxr hxt with ⟨i, hi, hup⟩ | ⟨i, hi, hup⟩
      · exact hapart t ht r hr hne.symm i (by omega) hup
      · exact hapart r hr t ht hne i (by omega) hup

end Forest

end TreeBuilder

/-! ## The replay -/

/-- The builder that gets the fetched rows. -/
abbrev treeBuilder (db : AuditDb φ) (q : ReplayQuery) (rounds : Nat) : TreeBuilder φ :=
  ⟨q.maxDepth, fetchSessionClosure db q rounds⟩

theorem Above.fetched {db : AuditDb φ} {q : ReplayQuery} {k : Nat} {x y : AuditLog φ}
    (h : Above db q k x y) : Fetched db q y := by
  cases h with
  | refl h => exact h
  | link _ h _ _ => exact h

section Rows
variable {db q} {rounds : Nat} (hrounds : q.maxDepth < rounds)
include hrounds

theorem link_row {y : AuditLog φ} (hy : Fetched db q y) {i : Nat} :
    (treeBuilder db q rounds).link y.id = some i ↔
      ∃ z, Fetched db q z ∧ y.parentAuditId = some z.id ∧ z.id ≠ y.id ∧ z.id = i := by
  have hmem := (mem_fetch hrounds).2 ⟨y, hy, rfl⟩
  have hlink : (treeBuilder db q rounds).link y.id = (treeBuilder db q rounds).bucket (joined db q y) :=
    TreeBuilder.link_of_mem (e := joined db q y) (fetch_ids rounds) hmem
  rw [hlink, TreeBuilder.bucket_eq_some]
  constructor
  · rintro ⟨hparent, hi, hne⟩
    obtain ⟨e, he, rfl⟩ := List.mem_map.1 hi
    obtain ⟨z, hz, rfl⟩ := (mem_fetch hrounds).1 he
    exact ⟨z, hz, hparent, hne, rfl⟩
  · rintro ⟨z, hz, hparent, hne, rfl⟩
    exact ⟨hparent, List.mem_map_of_mem ((mem_fetch hrounds).2 ⟨z, hz, rfl⟩), hne⟩

theorem above_row {x : AuditLog φ} (hx : Fetched db q x) {k i : Nat} :
    up (treeBuilder db q rounds).link k x.id = some i ↔
      ∃ z, Above db q k x z ∧ z.id = i := by
  induction k generalizing i with
  | zero =>
    constructor
    · intro h
      exact ⟨x, .refl hx, Option.some.inj h⟩
    · rintro ⟨z, h, rfl⟩
      cases h
      rfl
  | succ k ih =>
    rw [up, Option.bind_eq_some_iff]
    constructor
    · rintro ⟨j, hj, hlink⟩
      obtain ⟨y, hy, rfl⟩ := ih.1 hj
      obtain ⟨z, hz, hparent, hne, rfl⟩ := (link_row hrounds hy.fetched).1 hlink
      exact ⟨z, hy.link hz hparent hne, rfl⟩
    · rintro ⟨z, h, rfl⟩
      cases h with
      | link hy hz hparent hne =>
        rename_i y
        exact ⟨y.id, ih.2 ⟨y, hy, rfl⟩, (link_row hrounds hy.fetched).2 ⟨z, hz, hparent, hne, rfl⟩⟩

theorem first_row {r : AuditLog φ} (hr : Fetched db q r) :
    (treeBuilder db q rounds).First (joined db q r) ↔
      Promoted db q r := by
  have habove := fun k i => above_row hrounds hr (k := k) (i := i)
  constructor
  · rintro ⟨hends, hfirst⟩
    refine ⟨hr, fun k => ?_, fun k y hy => ?_⟩
    · obtain ⟨i, hi⟩ := hends k
      obtain ⟨y, hy, -⟩ := (habove k i).1 hi
      exact ⟨y, hy⟩
    · refine hfirst _ ((mem_fetch hrounds).2 ⟨y, hy.fetched, rfl⟩) ⟨k, ?_⟩
      exact (habove k y.id).2 ⟨y, hy, rfl⟩
  · rintro ⟨-, hends, hfirst⟩
    refine ⟨fun k => ?_, ?_⟩
    · obtain ⟨y, hy⟩ := hends k
      exact ⟨y.id, (habove k y.id).2 ⟨y, hy, rfl⟩⟩
    · rintro f hf ⟨k, hk⟩
      obtain ⟨z, hz, rfl⟩ := (mem_fetch hrounds).1 hf
      obtain ⟨y, hy, hid⟩ := (habove k _).1 hk
      obtain rfl := eq_of_id hy.fetched.mem hz.mem hid
      exact hfirst k y hy

end Rows

section Shown

/-- The roots of the replay. -/
def replayRoots (db : AuditDb φ) (q : ReplayQuery) : List (AuditEntry φ) :=
  (treeBuilder db q (q.maxDepth + 1)).roots db.logs.length

variable {db q}

theorem mem_replayRoots {e : AuditEntry φ} : e ∈ replayRoots db q ↔ ∃ row, Fetched db q row ∧
    e = joined db q row ∧ ((treeBuilder db q (q.maxDepth + 1)).link row.id = none ∨
      Promoted db q row) := by
  have hrounds : q.maxDepth < q.maxDepth + 1 := Nat.lt_succ_self _
  have hids : ((treeBuilder db q (q.maxDepth + 1)).entries.map (·.id)).Nodup := fetch_ids _
  rw [replayRoots, TreeBuilder.mem_roots hids (length_fetch_le _)]
  constructor
  · rintro ⟨he, hkind⟩
    obtain ⟨row, hrow, rfl⟩ := (mem_fetch hrounds).1 he
    rw [first_row hrounds hrow, ← TreeBuilder.link_of_mem hids he] at hkind
    exact ⟨row, hrow, rfl, hkind⟩
  · rintro ⟨row, hrow, rfl, hkind⟩
    have he := (mem_fetch hrounds).2 ⟨row, hrow, rfl⟩
    rw [first_row hrounds hrow, ← TreeBuilder.link_of_mem hids he]
    exact ⟨he, hkind⟩

/-- A root below another one: both are promoted. -/
theorem nodup_replay_iff :
    ((forestNodes (replaySession db q (q.maxDepth + 1) db.logs.length)).map (·.entry.id)).Nodup ↔
      PromotedApart db q := by
  have hrounds : q.maxDepth < q.maxDepth + 1 := Nat.lt_succ_self _
  refine (TreeBuilder.nodup_forest (fetch_ids _) (length_fetch_le _)).trans ⟨?_, ?_⟩
  · intro h r t hr ht hne k hk habove
    refine h _ (mem_replayRoots.2 ⟨r, hr.1, rfl, .inr hr⟩) _
      (mem_replayRoots.2 ⟨t, ht.1, rfl, .inr ht⟩) hne k hk ?_
    exact (above_row hrounds ht.1).2 ⟨r, habove, rfl⟩
  · intro h e he f hf hne k hk hup
    obtain ⟨r, hr, rfl, hrkind⟩ := mem_replayRoots.1 he
    obtain ⟨t, ht, rfl, htkind⟩ := mem_replayRoots.1 hf
    have hup : up (treeBuilder db q (q.maxDepth + 1)).link k t.id = some r.id := hup
    rcases htkind with hend | ht'
    · exact hne (eq_of_end hend hup)
    · rcases hrkind with hend | hr'
      · obtain ⟨y, hy⟩ := ht'.2.1 (k + 1)
        have hnext := (above_row hrounds ht).2 ⟨y, hy, rfl⟩
        rw [up, hup, Option.bind_some, hend] at hnext
        cases hnext
      · obtain ⟨z, hz, hid⟩ := (above_row hrounds ht).1 hup
        exact h r t hr' ht' hne k hk (eq_of_id hz.fetched.mem hr.mem hid ▸ hz)

theorem mem_replay {n : ReplayNode φ} :
    n ∈ replaySession db q (q.maxDepth + 1) db.logs.length ↔ ∃ r ∈ replayRoots db q,
      (treeBuilder db q (q.maxDepth + 1)).render q.maxDepth 0 r [r.id] = n := List.mem_map

theorem replay_placed : ∀ n ∈ forestNodes (replaySession db q (q.maxDepth + 1) db.logs.length),
    (treeBuilder db q (q.maxDepth + 1)).Placed n := by
  intro n hn
  rw [TreeBuilder.forestNodes_eq] at hn
  obtain ⟨root, hmem, hn⟩ := List.mem_flatMap.1 hn
  obtain ⟨r, hr, rfl⟩ := mem_replay.1 hmem
  obtain ⟨row, hrow, rfl, -⟩ := mem_replayRoots.1 hr
  exact TreeBuilder.render_placed ((mem_fetch (Nat.lt_succ_self _)).2 ⟨row, hrow, rfl⟩) n hn

/-- A condition on a root of the forest is one on the row of the root. -/
theorem exists_replay_root {P : Nat → Prop} :
    (∃ root ∈ replaySession db q (q.maxDepth + 1) db.logs.length, P root.entry.id) ↔
      ∃ r ∈ replayRoots db q, P r.id := by
  constructor
  · rintro ⟨n, hn, hP⟩
    obtain ⟨r, hr, rfl⟩ := mem_replay.1 hn
    rw [(TreeBuilder.render_entry _ _ _ _).1] at hP
    exact ⟨r, hr, hP⟩
  · rintro ⟨r, hr, hP⟩
    refine ⟨_, mem_replay.2 ⟨r, hr, rfl⟩, ?_⟩
    rwa [(TreeBuilder.render_entry _ _ _ _).1]

end Shown

/-- The replay ends, and it shows every fetched row once if and only if no promoted row is shown
below another promoted row. -/
theorem replay_once_iff (db : AuditDb φ) (q : ReplayQuery) (moreRounds moreSteps : Nat) :
    replaySession db q (q.maxDepth + 1 + moreRounds) (db.logs.length + moreSteps) =
        replaySession db q (q.maxDepth + 1) db.logs.length ∧
      (ReplaysOnce db q (replaySession db q (q.maxDepth + 1) db.logs.length) ↔
        PromotedApart db q) := by
  have hrounds : q.maxDepth < q.maxDepth + 1 := Nat.lt_succ_self _
  have hids : ((treeBuilder db q (q.maxDepth + 1)).entries.map (·.id)).Nodup := fetch_ids _
  have hlength : (treeBuilder db q (q.maxDepth + 1)).entries.length ≤ db.logs.length :=
    length_fetch_le _
  refine ⟨?_, fun h => nodup_replay_iff.1 h.once, fun hapart => ?_⟩
  · rw [replaySession, fetch_rounds (by omega) hrounds, assembleTree, TreeBuilder.buildForest,
      TreeBuilder.roots_steps hids (Nat.le_add_right_of_le hlength) hlength]
    rfl
  · exact {
      rows := fun n hn => (mem_fetch hrounds).1 (replay_placed n hn).1
      once := nodup_replay_iff.2 hapart
      shown := by
        intro row hrow
        rw [exists_replay_root (P := fun i => ∃ k ≤ q.maxDepth, ∃ z, Above db q k row z ∧ z.id = i)]
        simp only [← above_row hrounds hrow]
        exact TreeBuilder.mem_forest hids
      rooted := by
        intro row hrow
        obtain ⟨r, hr, k, hk⟩ := TreeBuilder.exists_root hids hlength
          ((mem_fetch hrounds).2 ⟨row, hrow, rfl⟩)
        exact (exists_replay_root (P := fun i => ∃ k z, Above db q k row z ∧ z.id = i)).2
          ⟨r, hr, k, (above_row hrounds hrow).1 hk⟩
      roots := by
        intro n hn
        obtain ⟨r, -, rfl⟩ := mem_replay.1 hn
        exact (TreeBuilder.render_entry _ _ _ _).2
      linked := fun n hn => (replay_placed n hn).2.2
      sorted := fun n hn => (replay_placed n hn).2.1 }

/-- Two rows of a cycle, and one that hangs off it and came first. -/
def tiedRows : AuditDb Unit :=
  { logs := [⟨1, 20, some 1, none, some 2, some 7, ()⟩, ⟨2, 30, some 1, none, some 1, some 7, ()⟩,
      ⟨3, 10, some 1, none, some 1, some 7, ()⟩]
    targets := []
    tenants := []
    log_ids := by decide
    target_ids := by decide
    tenant_ids := by decide }

/-- The row that came first is a root, and a child. -/
theorem hanging_row_is_shown_twice :
    ¬ReplaysOnce tiedRows ⟨7, 1, 20⟩ (replaySession tiedRows ⟨7, 1, 20⟩ 21 3) := by
  intro h
  have hshown : (forestNodes (replaySession tiedRows ⟨7, 1, 20⟩ 21 3)).map (·.entry.id) =
      [3, 1, 3, 2] := by decide
  have honce := h.once
  rw [hshown] at honce
  revert honce
  decide

end Meho.Audit.Replay
