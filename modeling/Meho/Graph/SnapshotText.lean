import Meho.Graph.Cutover
import Meho.Graph.ScopePlanOrder

/- The fingerprint of the graph that a cut-over checks (topology/scope_repair/plan.py).

`snapshot_version` hashes the rows as lines of text: fields apart by bars, rows by newlines,
names as they are. Names are free text, so a name may hold the end of a row and the start of
another one (`HoldsRow`). Where no row does, the text determines the rows
(`snapshotText_inj`), and with them the plan. Where a name does, there are two graphs of one
fingerprint (`name_collides`).

SHA-256 after the encoding is `digest`, and collision free: it is injective. Kinds are slugs,
as every writer checks. An id prints as a UUID does.

Correspondence: `snapshot_version` ↔ `snapshotDigest`, the lines ↔ `nodeLine`, `edgeLine`. -/
namespace Meho.Graph
open Meho.Lib

namespace SnapshotText

/-! ## Texts of fields -/

def hexDigit (n : Nat) : Char := "0123456789abcdef".toList.getD n '0'

/-- The last `width` hexadecimal digits. -/
def hexDigits : (width n : Nat) → List Char
  | 0, _ => []
  | width + 1, n => hexDigits width (n / 16) ++ [hexDigit (n % 16)]

/-- `str` of a UUID. -/
def uuidText (id : Nat) : List Char :=
  let hex := hexDigits 32 id
  hex.take 8 ++ '-' :: ((hex.drop 8).take 4 ++ '-' :: ((hex.drop 12).take 4 ++ '-' ::
    ((hex.drop 16).take 4 ++ '-' :: hex.drop 20)))

/-- The ids there are. -/
def isUuid (id : Nat) : Prop := id < 16 ^ 32

def sourceText : Source → List Char
  | .auto => "auto".toList
  | .curated => "curated".toList

def scopeText : Option Scope → List Char
  | none => "None".toList
  | some .global => "global".toList
  | some (.legacy id) => "legacy:".toList ++ uuidText id
  | some (.target id) => "target:".toList ++ uuidText id

def liveText (live : Bool) : List Char := if live then ['1'] else ['0']

/-! ## Lines -/

/-- A row up to its kind. -/
def nodeIds (n : OldNode) : List Char :=
  'n' :: '|' :: (uuidText n.id ++ '|' :: uuidText n.tenantId)

/-- The kind and the name of a row. -/
def nodeNames (n : OldNode) : List Char := '|' :: (n.kind.toList ++ '|' :: n.name.toList)

/-- A row behind its name. -/
def nodeTail (n : OldNode) : List Char :=
  '|' :: (sourceText n.source ++ '|' :: (scopeText n.sourceScope ++ '|' ::
    (liveText n.live ++ ['\n'])))

def nodeLine (n : OldNode) : List Char := nodeIds n ++ nodeNames n ++ nodeTail n

def edgeLine (e : OldEdge) : List Char :=
  'e' :: '|' :: (uuidText e.id ++ '|' :: (uuidText e.tenantId ++ '|' :: (uuidText e.fromNodeId ++
    '|' :: (uuidText e.toNodeId ++ '|' :: (e.kind.toList ++ '|' :: (sourceText e.source ++
      '|' :: (liveText e.live ++ ['\n'])))))))

def snapshotText (nodes : List OldNode) (edges : List OldEdge) : List Char :=
  (orderBy OldNode.id nodes).flatMap nodeLine ++ (orderBy OldEdge.id edges).flatMap edgeLine

/-- `snapshot_version`, with the hash of a text as a parameter. -/
def snapshotDigest {D : Type} (digest : List Char → D) (nodes : List OldNode)
    (edges : List OldEdge) : D :=
  digest (snapshotText nodes edges)

/-! ## Identifiers -/

theorem hexDigits_length (width n : Nat) : (hexDigits width n).length = width := by
  induction width generalizing n with
  | zero => rfl
  | succ width ih => rw [hexDigits, List.length_append, ih, List.length_singleton]

theorem hexDigits_mem {width n : Nat} {c : Char} (h : c ∈ hexDigits width n) :
    c ∈ "0123456789abcdef".toList := by
  induction width generalizing n with
  | zero => exact absurd h List.not_mem_nil
  | succ width ih =>
    match List.mem_append.mp h with
    | .inl h => exact ih h
    | .inr h =>
      rw [List.mem_singleton.mp h]
      exact (by decide : ∀ k < 16, hexDigit k ∈ "0123456789abcdef".toList) _
        (Nat.mod_lt n (by decide))

theorem hexDigits_inj {width m n : Nat} (hm : m < 16 ^ width) (hn : n < 16 ^ width)
    (h : hexDigits width m = hexDigits width n) : m = n := by
  induction width generalizing m n with
  | zero =>
    rw [Nat.pow_zero] at hm hn
    omega
  | succ width ih =>
    obtain ⟨hfront, hlast⟩ := List.append_inj' h rfl
    rw [Nat.pow_succ] at hm hn
    have hdiv := ih (Nat.div_lt_of_lt_mul (by omega)) (Nat.div_lt_of_lt_mul (by omega)) hfront
    have hmod : ∀ a < 16, ∀ b < 16, hexDigit a = hexDigit b → a = b := by decide
    have := hmod _ (Nat.mod_lt m (by decide)) _ (Nat.mod_lt n (by decide)) (List.head_eq_of_cons_eq hlast)
    omega

/-! ## Fields are read back -/

/-- A text that ends no field and no row. -/
def Plain (text : List Char) : Prop := '|' ∉ text ∧ '\n' ∉ text

section Split
variable {f g x y : List Char}

theorem split_left (hf : '|' ∉ f) (hg : '|' ∉ g) (h : f ++ '|' :: x = g ++ '|' :: y) :
    f = g ∧ x = y := by
  induction f generalizing g with
  | nil =>
    cases g with
    | nil => exact ⟨rfl, (List.cons.inj h).2⟩
    | cons d g => exact absurd (List.mem_cons.mpr (.inl (List.cons.inj h).1)) hg
  | cons c f ih =>
    cases g with
    | nil => exact absurd (List.mem_cons.mpr (.inl (List.cons.inj h).1.symm)) hf
    | cons d g =>
      obtain ⟨hcd, hrest⟩ := List.cons.inj h
      obtain ⟨hfg, hxy⟩ := ih (fun hm => hf (List.mem_cons_of_mem _ hm))
        (fun hm => hg (List.mem_cons_of_mem _ hm)) hrest
      exact ⟨hcd ▸ hfg ▸ rfl, hxy⟩

theorem split_right (hf : '|' ∉ f) (hg : '|' ∉ g) (h : x ++ '|' :: f = y ++ '|' :: g) :
    x = y ∧ f = g := by
  have hrev := congrArg List.reverse h
  simp only [List.reverse_append, List.reverse_cons, List.append_assoc, List.singleton_append] at hrev
  obtain ⟨hfg, hxy⟩ := split_left (by simpa using hf) (by simpa using hg) hrev
  exact ⟨List.reverse_injective hxy, List.reverse_injective hfg⟩

end Split

theorem hexDigits_ne {width n : Nat} {c : Char} (h : c ∈ hexDigits width n) :
    c ≠ '-' ∧ c ≠ '|' ∧ c ≠ '\n' := by
  have hall : ("0123456789abcdef".toList.all fun d => d ≠ '-' ∧ d ≠ '|' ∧ d ≠ '\n') = true := rfl
  exact of_decide_eq_true (List.all_eq_true.mp hall c (hexDigits_mem h))

theorem uuidText_hex (id : Nat) : (uuidText id).filter (· ≠ '-') = hexDigits 32 id := by
  have hpart : ∀ l : List Char, l ⊆ hexDigits 32 id → l.filter (· ≠ '-') = l := fun l hl =>
    List.filter_eq_self.mpr fun c hc => decide_eq_true (hexDigits_ne (hl hc)).1
  have hjoin : ∀ i j, ((hexDigits 32 id).drop i).take j ++ (hexDigits 32 id).drop (i + j) =
      (hexDigits 32 id).drop i := by
    intro i j
    rw [← List.drop_drop, List.take_append_drop]
  have hdrop : ∀ i j, ((hexDigits 32 id).drop i).take j ⊆ hexDigits 32 id := fun i j _ hc =>
    List.drop_subset i _ (List.take_subset j _ hc)
  simp only [uuidText, List.filter_append, List.filter_cons, ne_eq, not_true, decide_false,
    Bool.false_eq_true, if_false]
  simp only [← ne_eq]
  rw [hpart _ (List.take_subset _ _), hpart _ (hdrop 8 4), hpart _ (hdrop 12 4),
    hpart _ (hdrop 16 4), hpart _ (List.drop_subset _ _), hjoin 16 4, hjoin 12 4, hjoin 8 4,
    List.take_append_drop]

theorem uuidText_inj {a b : Nat} (ha : isUuid a) (hb : isUuid b) (h : uuidText a = uuidText b) :
    a = b := by
  refine hexDigits_inj ha hb ?_
  rw [← uuidText_hex, ← uuidText_hex, h]

theorem uuidText_length (id : Nat) : (uuidText id).length = 36 := by
  simp [uuidText, hexDigits_length]

theorem uuidText_plain (id : Nat) : Plain (uuidText id) := by
  have hplain : ∀ c ∈ uuidText id, c ≠ '|' ∧ c ≠ '\n' := by
    intro c hc
    by_cases hdash : c = '-'
    · exact hdash ▸ by decide
    · have hkept : c ∈ (uuidText id).filter (· ≠ '-') := by simpa using ⟨hc, hdash⟩
      rw [uuidText_hex] at hkept
      exact (hexDigits_ne hkept).2
  exact ⟨fun h => (hplain _ h).1 rfl, fun h => (hplain _ h).2 rfl⟩

theorem sourceText_plain (source : Source) : Plain (sourceText source) := by
  cases source <;> exact ⟨by decide, by decide⟩

theorem sourceText_inj {a b : Source} (h : sourceText a = sourceText b) : a = b := by
  cases a <;> cases b <;> first | rfl | exact absurd h (by decide)

theorem sourceText_ne_uuid (source : Source) (id : Nat) : sourceText source ≠ uuidText id := by
  intro h
  have hlength := congrArg List.length h
  rw [uuidText_length] at hlength
  cases source <;> exact absurd hlength (by decide)

theorem liveText_plain (live : Bool) : '|' ∉ liveText live ++ ['\n'] := by
  cases live <;> decide

theorem liveText_inj {a b : Bool} (h : liveText a = liveText b) : a = b := by
  cases a <;> cases b <;> first | rfl | exact absurd h (by decide)

theorem Plain.append {x y : List Char} (hx : Plain x) (hy : Plain y) : Plain (x ++ y) :=
  ⟨fun h => (List.mem_append.mp h).elim hx.1 hy.1, fun h => (List.mem_append.mp h).elim hx.2 hy.2⟩

theorem scopeText_plain (scope : Option Scope) : Plain (scopeText scope) := by
  match scope with
  | none | some .global => exact ⟨by decide, by decide⟩
  | some (.legacy id) | some (.target id) =>
      exact Plain.append ⟨by decide, by decide⟩ (uuidText_plain id)

/-- The first letter of a scope tells what kind of scope it is. -/
def scopeLetter : Option Scope → Char
  | none => 'N'
  | some .global => 'g'
  | some (.legacy _) => 'l'
  | some (.target _) => 't'

theorem scopeText_head (scope : Option Scope) :
    (scopeText scope).head? = some (scopeLetter scope) := by
  match scope with
  | none | some .global | some (.legacy _) | some (.target _) => rfl

theorem scopeText_ne_source (scope : Option Scope) (source : Source) :
    scopeText scope ≠ sourceText source := by
  intro h
  have hhead := congrArg List.head? h
  rw [scopeText_head] at hhead
  have hletter : scopeLetter scope ≠ 'a' ∧ scopeLetter scope ≠ 'c' := by
    match scope with
    | none | some .global | some (.legacy _) | some (.target _) =>
      simp only [scopeLetter]
      decide
  cases source with
  | auto => exact hletter.1 (Option.some.inj hhead)
  | curated => exact hletter.2 (Option.some.inj hhead)

/-- The ids of a scope are UUIDs. -/
def scopeIds : Option Scope → Prop
  | some (.legacy id) | some (.target id) => isUuid id
  | _ => True

theorem scopeText_inj {a b : Option Scope} (ha : scopeIds a) (hb : scopeIds b)
    (h : scopeText a = scopeText b) : a = b := by
  have hhead := congrArg List.head? h
  rw [scopeText_head, scopeText_head, Option.some_inj] at hhead
  match a, b with
  | none, none | some .global, some .global => rfl
  | some (.legacy i), some (.legacy j) | some (.target i), some (.target j) =>
      rw [uuidText_inj ha hb (List.append_cancel_left h)]
  | none, some .global | none, some (.legacy _) | none, some (.target _) | some .global, none
  | some .global, some (.legacy _) | some .global, some (.target _) | some (.legacy _), none
  | some (.legacy _), some .global | some (.legacy _), some (.target _) | some (.target _), none
  | some (.target _), some .global | some (.target _), some (.legacy _) =>
    simp only [scopeLetter] at hhead
    exact absurd hhead (by decide)

/-! ## Lines are read back -/

/-- What the columns of a stored node admit, and a slug for a kind. -/
structure StoredNode (n : OldNode) : Prop where
  id : isUuid n.id
  tenantId : isUuid n.tenantId
  kind : Plain n.kind.toList
  scope : scopeIds n.sourceScope

/-- An edge as the database can hold it. -/
structure StoredEdge (e : OldEdge) : Prop where
  id : isUuid e.id
  tenantId : isUuid e.tenantId
  fromNodeId : isUuid e.fromNodeId
  toNodeId : isUuid e.toNodeId
  kind : Plain e.kind.toList

section Lines
variable {x y : List Char} {a b : OldNode}

/-- From the right, a node row is read up to its name. -/
theorem nodeTail_inj (ha : scopeIds a.sourceScope) (hb : scopeIds b.sourceScope)
    (h : x ++ nodeTail a = y ++ nodeTail b) :
    x = y ∧ a.source = b.source ∧ a.sourceScope = b.sourceScope ∧ a.live = b.live := by
  have hassoc : ∀ (z : List Char) (n : OldNode), z ++ nodeTail n =
      ((z ++ '|' :: sourceText n.source) ++ '|' :: scopeText n.sourceScope) ++ '|' ::
        (liveText n.live ++ ['\n']) := by
    intro z n
    simp only [nodeTail, List.append_assoc, List.cons_append]
  rw [hassoc, hassoc] at h
  obtain ⟨h, hlive⟩ := split_right (liveText_plain _) (liveText_plain _) h
  obtain ⟨h, hscope⟩ := split_right (scopeText_plain _).1 (scopeText_plain _).1 h
  obtain ⟨h, hsource⟩ := split_right (sourceText_plain _).1 (sourceText_plain _).1 h
  exact ⟨h, sourceText_inj hsource, scopeText_inj ha hb hscope,
    liveText_inj (List.append_cancel_right hlive)⟩

/-- From the left, it is read up to its name too. -/
theorem nodeHead_inj (ha : StoredNode a) (hb : StoredNode b)
    (h : nodeIds a ++ nodeNames a = nodeIds b ++ nodeNames b) :
    a.id = b.id ∧ a.tenantId = b.tenantId ∧ a.kind = b.kind ∧ a.name = b.name := by
  simp only [nodeIds, nodeNames, List.append_assoc, List.cons_append, List.cons.injEq, true_and] at h
  obtain ⟨hid, h⟩ := split_left (uuidText_plain _).1 (uuidText_plain _).1 h
  obtain ⟨htenant, h⟩ := split_left (uuidText_plain _).1 (uuidText_plain _).1 h
  obtain ⟨hkind, hname⟩ := split_left ha.kind.1 hb.kind.1 h
  exact ⟨uuidText_inj ha.id hb.id hid, uuidText_inj ha.tenantId hb.tenantId htenant,
    String.toList_injective hkind, String.toList_injective hname⟩

theorem edgeLine_inj {e f : OldEdge} (he : StoredEdge e) (hf : StoredEdge f)
    (h : x ++ edgeLine e = y ++ edgeLine f) : x = y ∧ e = f := by
  have hassoc : ∀ (z : List Char) (n : OldEdge), z ++ edgeLine n =
      (((((((z ++ ['e']) ++ '|' :: uuidText n.id) ++ '|' :: uuidText n.tenantId) ++
        '|' :: uuidText n.fromNodeId) ++ '|' :: uuidText n.toNodeId) ++ '|' :: n.kind.toList) ++
          '|' :: sourceText n.source) ++ '|' :: (liveText n.live ++ ['\n']) := by
    intro z n
    simp only [edgeLine, List.append_assoc, List.cons_append, List.nil_append]
  rw [hassoc, hassoc] at h
  obtain ⟨h, hlive⟩ := split_right (liveText_plain _) (liveText_plain _) h
  obtain ⟨h, hsource⟩ := split_right (sourceText_plain _).1 (sourceText_plain _).1 h
  obtain ⟨h, hkind⟩ := split_right he.kind.1 hf.kind.1 h
  obtain ⟨h, hto⟩ := split_right (uuidText_plain _).1 (uuidText_plain _).1 h
  obtain ⟨h, hfrom⟩ := split_right (uuidText_plain _).1 (uuidText_plain _).1 h
  obtain ⟨h, htenant⟩ := split_right (uuidText_plain _).1 (uuidText_plain _).1 h
  obtain ⟨h, hid⟩ := split_right (uuidText_plain _).1 (uuidText_plain _).1 h
  refine ⟨List.append_cancel_right h, ?_⟩
  cases e
  cases f
  simp only [OldEdge.mk.injEq]
  exact ⟨uuidText_inj he.id hf.id hid, uuidText_inj he.tenantId hf.tenantId htenant,
    uuidText_inj he.fromNodeId hf.fromNodeId hfrom, uuidText_inj he.toNodeId hf.toNodeId hto,
    String.toList_injective hkind, sourceText_inj hsource,
    liveText_inj (List.append_cancel_right hlive)⟩

/-- A node row does not end as an edge row does. -/
theorem node_ne_edge (e : OldEdge) : x ++ nodeLine a ≠ y ++ edgeLine e := by
  intro h
  have hnode : x ++ nodeLine a = ((x ++ (nodeIds a ++ nodeNames a)) ++ '|' :: sourceText a.source ++
      '|' :: scopeText a.sourceScope) ++ '|' :: (liveText a.live ++ ['\n']) := by
    simp only [nodeLine, nodeTail, List.append_assoc, List.cons_append]
  have hedge : y ++ edgeLine e = ((y ++ 'e' :: '|' :: (uuidText e.id ++ '|' :: (uuidText e.tenantId ++
      '|' :: (uuidText e.fromNodeId ++ '|' :: (uuidText e.toNodeId ++ '|' :: e.kind.toList))))) ++
        '|' :: sourceText e.source) ++ '|' :: (liveText e.live ++ ['\n']) := by
    simp only [edgeLine, List.append_assoc, List.cons_append]
  rw [hnode, hedge] at h
  obtain ⟨h, -⟩ := split_right (liveText_plain _) (liveText_plain _) h
  obtain ⟨-, h⟩ := split_right (scopeText_plain _).1 (sourceText_plain _).1 h
  exact scopeText_ne_source _ _ h

end Lines

/-! ## Rows inside rows -/

/-- The text of a row from its kind on holds the end of a row and the start of another one. -/
def HoldsRow (n : OldNode) : Prop :=
  ∃ (front : List Char) (p b : OldNode), scopeIds p.sourceScope ∧ StoredNode b ∧
    nodeNames n = front ++ (nodeTail p ++ (nodeIds b ++ nodeNames b))

section Overlap
variable {a b p : OldNode} {c : List Char}

theorem nodeTail_last (p : OldNode) : (nodeTail p).getLast? = some '\n' := by
  have hassoc : nodeTail p = '|' :: (sourceText p.source ++ '|' :: (scopeText p.sourceScope ++ '|' ::
      liveText p.live)) ++ ['\n'] := by
    simp only [nodeTail, List.append_assoc, List.cons_append]
  rw [hassoc, List.getLast?_concat]

theorem nodeTail_bars (p : OldNode) : (nodeTail p).count '|' = 3 := by
  have hsource := List.count_eq_zero_of_not_mem (sourceText_plain p.source).1
  have hscope := List.count_eq_zero_of_not_mem (scopeText_plain p.sourceScope).1
  have hlive := List.count_eq_zero_of_not_mem (liveText_plain p.live)
  rw [nodeTail, List.count_cons_self, List.count_append, List.count_cons_self, List.count_append,
    List.count_cons_self, hsource, hscope, hlive]

theorem tail_not_head (ha : StoredNode a) (hc : c ≠ []) (hsuffix : c <:+ nodeTail p)
    (hstart : c <+: nodeIds a ++ nodeNames a) : False := by
  have hnewline : '\n' ∈ c := by
    obtain ⟨front, hfront⟩ := hsuffix
    have hlast := nodeTail_last p
    rw [← hfront, List.getLast?_append_of_ne_nil _ hc] at hlast
    exact List.mem_of_getLast? hlast
  have hids : nodeIds a ++ '|' :: (a.kind.toList ++ ['|']) <+: nodeIds a ++ nodeNames a :=
    ⟨a.name.toList, by simp only [nodeNames, List.append_assoc, List.cons_append, List.nil_append]⟩
  match List.prefix_or_prefix_of_prefix hstart hids with
  | .inl h =>
    have hmem := h.subset hnewline
    simp only [nodeIds, List.mem_append, List.mem_cons, (uuidText_plain _).2, ha.kind.2] at hmem
    exact absurd hmem (by decide)
  | .inr h =>
    have hle := (h.sublist.count_le '|').trans (hsuffix.sublist.count_le '|')
    rw [nodeTail_bars, nodeIds] at hle
    simp only [List.count_append, List.count_cons] at hle
    simp at hle
    omega

/-- Where a row starts inside the text of an earlier one, behind the end of a row, the earlier
one holds a row. -/
theorem holdsRow_of_tail (hp : scopeIds p.sourceScope) (hb : StoredNode b)
    (h : nodeIds a ++ nodeNames a = c ++ (nodeTail p ++ (nodeIds b ++ nodeNames b))) :
    HoldsRow a := by
  match List.append_eq_append_iff.mp h with
  | .inl ⟨front, _, hnames⟩ => exact ⟨front, p, b, hp, hb, hnames⟩
  | .inr ⟨[], _, hnames⟩ => exact ⟨[], p, b, hp, hb, hnames.symm⟩
  | .inr ⟨d :: rest, hids, hnames⟩ =>
    -- The end of a row starts inside the ids: its source would be an id.
    simp only [nodeTail, List.cons_append, List.append_assoc, List.cons.injEq] at hnames
    obtain ⟨rfl, hnames⟩ := hnames
    have hsource : ∀ id : Nat, ∀ more : List Char, rest ++ nodeNames a ≠ uuidText id ++ '|' :: more := by
      intro id more hrest
      rw [← hnames] at hrest
      exact sourceText_ne_uuid _ _ (split_left (sourceText_plain _).1 (uuidText_plain _).1 hrest).1
    match c with
    | [] => exact absurd (List.cons.inj hids).1 (by decide)
    | [_] =>
      have hrest := (List.cons.inj (List.cons.inj hids).2).2
      refine absurd ?_ (hsource a.id (uuidText a.tenantId ++ nodeNames a))
      rw [← hrest, List.append_assoc, List.cons_append]
    | _ :: _ :: c =>
      have hrest := (List.cons.inj (List.cons.inj hids).2).2
      obtain ⟨-, -, htenant⟩ := (List.append_cons_inj_of_notMem (uuidText_plain a.id).1
        (uuidText_plain a.tenantId).1).mp hrest
      refine absurd ?_ (hsource a.tenantId (a.kind.toList ++ '|' :: a.name.toList))
      rw [← htenant, nodeNames]

/-- One of two rows that end a text starts where the other does, or holds a row. -/
theorem holdsRow_of_earlier (ha : StoredNode a) (hb : StoredNode b) {rows : List OldNode}
    (hrows : ∀ n ∈ rows, StoredNode n) (hc : c ≠ []) (hsuffix : c <:+ rows.flatMap nodeLine)
    (h : nodeIds a ++ nodeNames a = c ++ (nodeIds b ++ nodeNames b)) : HoldsRow a := by
  induction rows using List.reverseRecOn with
  | nil => exact absurd (List.suffix_nil.mp hsuffix) hc
  | append_singleton rows p _ =>
    have hp := (hrows p (by simp)).scope
    have htail : nodeTail p <:+ (rows ++ [p]).flatMap nodeLine := by
      refine ⟨rows.flatMap nodeLine ++ (nodeIds p ++ nodeNames p), ?_⟩
      simp [nodeLine]
    match List.suffix_or_suffix_of_suffix hsuffix htail with
    | .inl hinside => exact (tail_not_head ha hc hinside (h ▸ List.prefix_append _ _)).elim
    | .inr ⟨front, hfront⟩ =>
      refine holdsRow_of_tail hp hb (c := front) ?_
      rw [h, ← hfront, List.append_assoc]

end Overlap

/-! ## The text determines the rows -/

/-- Without rows inside rows, the last rows of two equal texts start at the same place. -/
theorem fronts_eq {a b : OldNode} {as bs : List OldNode} (ha : StoredNode a ∧ ¬ HoldsRow a)
    (hb : StoredNode b ∧ ¬ HoldsRow b) (has : ∀ n ∈ as, StoredNode n) (hbs : ∀ n ∈ bs, StoredNode n)
    (h : as.flatMap nodeLine ++ (nodeIds a ++ nodeNames a) =
      bs.flatMap nodeLine ++ (nodeIds b ++ nodeNames b)) :
    as.flatMap nodeLine = bs.flatMap nodeLine ∧
      nodeIds a ++ nodeNames a = nodeIds b ++ nodeNames b := by
  match List.append_eq_append_iff.mp h with
  | .inl ⟨c, hfront, hhead⟩ =>
    by_cases hc : c = []
    · rw [hc, List.append_nil] at hfront
      rw [hc, List.nil_append] at hhead
      exact ⟨hfront.symm, hhead⟩
    · exact absurd (holdsRow_of_earlier ha.1 hb.1 hbs hc (hfront ▸ List.suffix_append _ _) hhead) ha.2
  | .inr ⟨c, hfront, hhead⟩ =>
    by_cases hc : c = []
    · rw [hc, List.append_nil] at hfront
      rw [hc, List.nil_append] at hhead
      exact ⟨hfront, hhead.symm⟩
    · exact absurd (holdsRow_of_earlier hb.1 ha.1 has hc (hfront ▸ List.suffix_append _ _) hhead) hb.2

theorem nodes_inj {as bs : List OldNode} (ha : ∀ n ∈ as, StoredNode n ∧ ¬ HoldsRow n)
    (hb : ∀ n ∈ bs, StoredNode n ∧ ¬ HoldsRow n)
    (h : as.flatMap nodeLine = bs.flatMap nodeLine) : as = bs := by
  have hempty : ∀ (rows : List OldNode) (n : OldNode), (rows ++ [n]).flatMap nodeLine ≠ [] := by
    intro rows n
    simp [nodeLine, nodeIds]
  induction as using List.reverseRecOn generalizing bs with
  | nil =>
    rcases List.eq_nil_or_concat bs with rfl | ⟨bs, b, rfl⟩
    · rfl
    · rw [List.concat_eq_append] at h
      exact absurd h.symm (hempty bs b)
  | append_singleton as a ih =>
    rcases List.eq_nil_or_concat bs with rfl | ⟨bs, b, rfl⟩
    · exact absurd h (hempty as a)
    · rw [List.concat_eq_append] at h hb ⊢
      obtain ⟨hastored, haclean⟩ := ha a (by simp)
      obtain ⟨hbstored, hbclean⟩ := hb b (by simp)
      have hafront : ∀ n ∈ as, StoredNode n ∧ ¬ HoldsRow n := fun n hn => ha n (by simp [hn])
      have hbfront : ∀ n ∈ bs, StoredNode n ∧ ¬ HoldsRow n := fun n hn => hb n (by simp [hn])
      have hlines : (as.flatMap nodeLine ++ (nodeIds a ++ nodeNames a)) ++ nodeTail a =
          (bs.flatMap nodeLine ++ (nodeIds b ++ nodeNames b)) ++ nodeTail b := by
        simpa [nodeLine] using h
      obtain ⟨hheads, hsource, hscope, hlive⟩ := nodeTail_inj hastored.scope hbstored.scope hlines
      obtain ⟨hfront, hhead⟩ := fronts_eq ⟨hastored, haclean⟩ ⟨hbstored, hbclean⟩
        (fun n hn => (hafront n hn).1) (fun n hn => (hbfront n hn).1) hheads
      obtain ⟨hid, htenant, hkind, hname⟩ := nodeHead_inj hastored hbstored hhead
      have hsame : a = b := by
        cases a
        cases b
        simp only [OldNode.mk.injEq]
        exact ⟨hid, htenant, hkind, hname, hsource, hscope, hlive⟩
      rw [ih hafront hbfront hfront, hsame]

theorem edges_inj {as bs : List OldNode} {es fs : List OldEdge} (he : ∀ e ∈ es, StoredEdge e)
    (hf : ∀ f ∈ fs, StoredEdge f)
    (h : as.flatMap nodeLine ++ es.flatMap edgeLine = bs.flatMap nodeLine ++ fs.flatMap edgeLine) :
    as.flatMap nodeLine = bs.flatMap nodeLine ∧ es = fs := by
  have hmixed : ∀ (rows : List OldNode) (x : List Char) (e : OldEdge),
      rows.flatMap nodeLine ≠ x ++ edgeLine e := by
    intro rows x e hrows
    rcases List.eq_nil_or_concat rows with rfl | ⟨rows, n, rfl⟩
    · simp [edgeLine] at hrows
    · exact node_ne_edge (x := rows.flatMap nodeLine) (a := n) e (by simpa using hrows)
  induction es using List.reverseRecOn generalizing fs with
  | nil =>
    rcases List.eq_nil_or_concat fs with rfl | ⟨fs, f, rfl⟩
    · exact ⟨by simpa using h, rfl⟩
    · refine absurd ?_ (hmixed as (bs.flatMap nodeLine ++ fs.flatMap edgeLine) f)
      simpa using h
  | append_singleton es e ih =>
    rcases List.eq_nil_or_concat fs with rfl | ⟨fs, f, rfl⟩
    · refine absurd ?_ (hmixed bs (as.flatMap nodeLine ++ es.flatMap edgeLine) e)
      simpa using h.symm
    · rw [List.concat_eq_append] at h hf ⊢
      have hlines : (as.flatMap nodeLine ++ es.flatMap edgeLine) ++ edgeLine e =
          (bs.flatMap nodeLine ++ fs.flatMap edgeLine) ++ edgeLine f := by
        simpa using h
      obtain ⟨hfront, rfl⟩ := edgeLine_inj (he e (by simp)) (hf f (by simp)) hlines
      obtain ⟨hnodes, rfl⟩ := ih (fun e he' => he e (by simp [he'])) (fun f hf' => hf f (by simp [hf']))
        hfront
      exact ⟨hnodes, rfl⟩

/-- The rows of the two tables before the cut-over. -/
structure StoredGraph (nodes : List OldNode) (edges : List OldEdge) : Prop extends
    OldGraph nodes edges where
  node : ∀ n ∈ nodes, StoredNode n
  edge : ∀ e ∈ edges, StoredEdge e

section Rows
variable {nodes nodes' : List OldNode} {edges edges' : List OldEdge}

theorem snapshotText_inj (h : StoredGraph nodes edges) (h' : StoredGraph nodes' edges')
    (hclean : ∀ n ∈ nodes, ¬ HoldsRow n) (hclean' : ∀ n ∈ nodes', ¬ HoldsRow n)
    (htext : snapshotText nodes edges = snapshotText nodes' edges') :
    nodes.Perm nodes' ∧ edges.Perm edges' := by
  obtain ⟨hnodes, hedges⟩ := edges_inj (fun e he => h.edge e ((mem_orderBy _).mp he))
    (fun e he => h'.edge e ((mem_orderBy _).mp he)) htext
  have hrows := nodes_inj
    (fun n hn => ⟨h.node n ((mem_orderBy _).mp hn), hclean n ((mem_orderBy _).mp hn)⟩)
    (fun n hn => ⟨h'.node n ((mem_orderBy _).mp hn), hclean' n ((mem_orderBy _).mp hn)⟩) hnodes
  exact ⟨(perm_orderBy _ nodes).symm.trans (hrows ▸ perm_orderBy _ nodes'),
    (perm_orderBy _ edges).symm.trans (hedges ▸ perm_orderBy _ edges')⟩

end Rows

/-! ## Names that hold a row -/

/-- A row whose names are the names of one row, its end and the start of another one reads like
these two. -/
theorem cut_text {n cut rest : OldNode} (hids : nodeIds n = nodeIds cut)
    (htail : nodeTail n = nodeTail rest) (hle : cut.id ≤ rest.id)
    (hnames : nodeNames n = nodeNames cut ++ (nodeTail cut ++ (nodeIds rest ++ nodeNames rest))) :
    snapshotText [n] [] = snapshotText [cut, rest] [] := by
  have horder : orderBy OldNode.id [cut, rest] = [cut, rest] := by
    simp only [orderBy, List.insertionSort, List.foldr, List.orderedInsert, if_pos hle]
  have hn : orderBy OldNode.id [n] = [n] := rfl
  rw [snapshotText, snapshotText, horder, hn]
  simp only [List.flatMap_cons, List.flatMap_nil, List.append_nil, nodeLine, hids, htail, hnames,
    List.append_assoc, orderBy_nil]

theorem storedGraph_one {n : OldNode} (hn : StoredNode n) : StoredGraph [n] [] :=
  ⟨⟨List.nodup_singleton _, List.nodup_singleton _, List.nodup_nil, List.nodup_nil, nofun⟩,
    fun _ h => List.mem_singleton.mp h ▸ hn, nofun⟩

theorem storedGraph_two {n m : OldNode} (hn : StoredNode n) (hm : StoredNode m) (hid : n.id ≠ m.id)
    (hkey : (n.tenantId, n.kind, n.name) ≠ (m.tenantId, m.kind, m.name)) : StoredGraph [n, m] [] := by
  refine ⟨⟨?_, ?_, List.nodup_nil, List.nodup_nil, nofun⟩, fun x hx => ?_, nofun⟩
  · simpa using hid
  · simpa using hkey
  · obtain rfl | hx := List.mem_cons.mp hx
    · exact hn
    · exact List.mem_singleton.mp hx ▸ hm

/-- A name that holds the end of a row and the start of another one: a graph with this name has
the fingerprint of a graph in which the name is cut into two rows. Where the columns admit the
parts, they admit both graphs. -/
theorem name_collides {kind name : String} {front : List Char} {p b : OldNode} (hid : 0 < b.id)
    (hname : name.toList = front ++ (nodeTail p ++ (nodeIds b ++ nodeNames b))) :
    ∃ n cut rest : OldNode, n.kind = kind ∧ n.name = name ∧ cut.id ≠ rest.id ∧
      snapshotText [n] [] = snapshotText [cut, rest] [] ∧
      (Plain kind.toList → scopeIds p.sourceScope → StoredNode b →
        StoredGraph [n] [] ∧ StoredGraph [cut, rest] []) := by
  -- a tenant that is not the one of the row in the name
  let tenant := if b.tenantId = 0 then 1 else 0
  have htenant : tenant ≠ b.tenantId := by
    show (if b.tenantId = 0 then 1 else 0) ≠ b.tenantId
    split <;> omega
  have huuid : isUuid tenant := by
    show (if b.tenantId = 0 then 1 else 0) < 16 ^ 32
    split <;> decide
  have hnil : isUuid 0 := (by decide : 0 < 16 ^ 32)
  refine ⟨⟨0, tenant, kind, name, .auto, none, true⟩,
    ⟨0, tenant, kind, String.ofList front, p.source, p.sourceScope, p.live⟩,
    ⟨b.id, b.tenantId, b.kind, b.name, .auto, none, true⟩, rfl, rfl, Nat.ne_of_lt hid,
    cut_text rfl rfl (Nat.zero_le _) ?_, fun hkind hscope hb => ⟨?_, ?_⟩⟩
  · show '|' :: (kind.toList ++ '|' :: name.toList) =
      '|' :: (kind.toList ++ '|' :: (String.ofList front).toList) ++
        (nodeTail p ++ (nodeIds b ++ nodeNames b))
    rw [hname, String.toList_ofList]
    simp only [List.append_assoc, List.cons_append]
  · exact storedGraph_one ⟨hnil, huuid, hkind, trivial⟩
  · refine storedGraph_two ⟨hnil, huuid, hkind, hscope⟩ ⟨hb.id, hb.tenantId, hb.kind, trivial⟩
      (Nat.ne_of_lt hid) ?_
    intro hkey
    exact htenant (Prod.mk.inj hkey).1

/-- When the fingerprint sees every change: where no row holds a row, equal fingerprints mean
equal rows and one plan, and a name that holds a row does have a second reading, in two graphs
that the tables admit. -/
theorem snapshot_sees_changes {D V : Type} (digest : List Char → D)
    (hdigest : Function.Injective digest) :
    (∀ (str : Nat → String) (nodes nodes' : List OldNode) (edges edges' : List OldEdge),
      StoredGraph nodes edges → StoredGraph nodes' edges' →
      (∀ n ∈ nodes, ¬ HoldsRow n) → (∀ n ∈ nodes', ¬ HoldsRow n) →
      snapshotDigest digest nodes edges = snapshotDigest digest nodes' edges' →
        nodes.Perm nodes' ∧ edges.Perm edges' ∧
          ∀ (discoveries : List (TargetDiscovery V)) (newId : Nat → Nat),
            EachAskedOnce discoveries → buildPlan str nodes edges discoveries newId =
              buildPlan str nodes' edges' discoveries newId) ∧
    ∀ (kind name : String) (front : List Char) (p b : OldNode), 0 < b.id →
      name.toList = front ++ (nodeTail p ++ (nodeIds b ++ nodeNames b)) →
        ∃ n cut rest : OldNode, n.kind = kind ∧ n.name = name ∧ cut.id ≠ rest.id ∧
          snapshotDigest digest [n] [] = snapshotDigest digest [cut, rest] [] ∧
          (Plain kind.toList → scopeIds p.sourceScope → StoredNode b →
            StoredGraph [n] [] ∧ StoredGraph [cut, rest] []) := by
  refine ⟨fun str nodes nodes' edges edges' h h' hclean hclean' hsame => ?_,
    fun kind name front p b hid hname => ?_⟩
  · obtain ⟨hnodes, hedges⟩ := snapshotText_inj h h' hclean hclean' (hdigest hsame)
    exact ⟨hnodes, hedges, fun discoveries newId honce =>
      buildPlan_perm newId h.toOldGraph honce hnodes hedges (List.Perm.refl _)⟩
  · obtain ⟨n, cut, rest, hkind, hname', hne, htext, hstored⟩ :=
      @name_collides kind name front p b hid hname
    exact ⟨n, cut, rest, hkind, hname', hne, congrArg digest htext, hstored⟩

/-- A row without properties to read: id, kind and name. -/
def sampleNode (id : Nat) (name : String) : OldNode := ⟨id, 5, "vm", name, .auto, none, true⟩

theorem sampleNode_stored {id : Nat} (hid : id < 10) (name : String) :
    StoredNode (sampleNode id name) :=
  ⟨Nat.lt_trans hid (by decide), (by decide : 5 < 16 ^ 32),
    (⟨by decide, by decide⟩ : Plain "vm".toList), trivial⟩

/-- A name of one letter is too short to hold a row. -/
theorem sampleNode_clean {id : Nat} {name : String} (hname : name.toList.length = 1) :
    ¬ HoldsRow (sampleNode id name) := by
  rintro ⟨front, p, b, _, _, hnames⟩
  have hlength := congrArg List.length hnames
  simp [nodeNames, nodeIds, uuidText_length, sampleNode, hname] at hlength
  omega

/-- Two presentations of one graph: the rows are the same, and so is every plan. -/
theorem snapshot_sees_sample :
    [sampleNode 1 "x", sampleNode 2 "y"].Perm [sampleNode 2 "y", sampleNode 1 "x"] ∧
      ∀ newId, buildPlan (V := Unit) (fun _ => "") [sampleNode 1 "x", sampleNode 2 "y"] [] [] newId =
        buildPlan (V := Unit) (fun _ => "") [sampleNode 2 "y", sampleNode 1 "x"] [] [] newId := by
  have hx := sampleNode_stored (by decide : 1 < 10) "x"
  have hy := sampleNode_stored (by decide : 2 < 10) "y"
  obtain ⟨hnodes, -, hplan⟩ := (snapshot_sees_changes (V := Unit) id Function.injective_id).1
    (fun _ => "") [sampleNode 1 "x", sampleNode 2 "y"] [sampleNode 2 "y", sampleNode 1 "x"] [] []
    (storedGraph_two hx hy (by decide) (by decide)) (storedGraph_two hy hx (by decide) (by decide))
    (by simp [sampleNode_clean]) (by simp [sampleNode_clean]) rfl
  exact ⟨hnodes, fun newId => hplan [] newId List.nodup_nil⟩

/-- A name that holds the end of its own row and the start of the next one. -/
def longName : String :=
  String.ofList ('x' :: (nodeTail (sampleNode 1 "x") ++ (nodeIds (sampleNode 2 "y") ++
    nodeNames (sampleNode 2 "y"))))

/-- One row with this name and the two rows of the name have one fingerprint. -/
theorem two_graphs_one_fingerprint :
    StoredGraph [sampleNode 1 longName] [] ∧
      StoredGraph [sampleNode 1 "x", sampleNode 2 "y"] [] ∧
        snapshotText [sampleNode 1 longName] [] =
          snapshotText [sampleNode 1 "x", sampleNode 2 "y"] [] ∧
        ¬ [sampleNode 1 longName].Perm [sampleNode 1 "x", sampleNode 2 "y"] := by
  refine ⟨?_, ?_, cut_text rfl rfl (by decide) ?_, fun h => absurd h.length_eq (by decide)⟩
  · exact storedGraph_one (sampleNode_stored (by decide) longName)
  · exact storedGraph_two (sampleNode_stored (by decide) "x") (sampleNode_stored (by decide) "y")
      (by decide) (by decide)
  · simp [nodeNames, longName, sampleNode]

end SnapshotText
end Meho.Graph
