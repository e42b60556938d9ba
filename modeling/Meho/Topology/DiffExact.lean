import Meho.Topology.Diff

/- When the topology diff is exact.

The fetch cap counts groups of the id column, the fold counts resources. A deleted
resource has one group for each of its rows, so the rows within the cap may be of far
fewer resources than the cap, and may be a part of a resource's rows only.
`FetchCovers` says that neither happens, and the diff is exact just then
(`diff_exact_iff_fetch_covers`). -/
namespace Meho.Topology
open Meho.Lib

/-- A resource of one of the two tables. -/
abbrev Resource : Type := Source × GrpKey

def DiffGroup.resource (g : DiffGroup) : Resource := (g.source, g.key)

section Exact
variable (py : Reader) (h : Histories) (tenantId : Nat) (ts1 ts2 : Time)

/-- The rows of the window, in order. -/
def windowRows (source : Source) : List HistoryRow :=
  orderBy HistoryRow.key (windowed tenantId ts1 ts2 (h.side source))

/-- The row is in one of the groups that the fetch cap admits. -/
def withinCap (source : Source) (r : HistoryRow) : Bool :=
  grpRank (windowed tenantId ts1 ts2 (h.side source)) r ≤ diffFetchResourceCap

/-- The rows that the statement of a side fetches. -/
def fetched (source : Source) : List HistoryRow :=
  diffSql tenantId ts1 ts2 diffFetchResourceCap (h.side source)

/-- The resources with history in the window. -/
def resources : Finset Resource :=
  ((windowRows h tenantId ts1 ts2 .node).map (fun r => (Source.node, resourceKey py r)) ++
    (windowRows h tenantId ts1 ts2 .edge).map (fun r => (Source.edge, resourceKey py r))).toFinset

/-- The groups of the fetched rows. -/
def fetchedGroups : List DiffGroup :=
  diffGroups py (fetched h tenantId ts1 ts2 .node) (fetched h tenantId ts1 ts2 .edge)

/-- The groups that get an entry. -/
def folded : List DiffGroup := (fetchedGroups py h tenantId ts1 ts2).take diffHardCap

/-- The diff is exact: each entry is folded from all the rows that a resource has in the
window, no resource has two, and every resource has one, or `diffHardCap` of them have one
and the result says so. -/
structure DiffExact (result : TopologyDiffResult) : Prop where
  entries : result.entries.map some =
    (folded py h tenantId ts1 ts2).map (buildDiffEntry py false)
  known : ∀ g ∈ folded py h tenantId ts1 ts2, g.resource ∈ resources py h tenantId ts1 ts2
  whole : ∀ g ∈ folded py h tenantId ts1 ts2,
    g.rows = (windowRows h tenantId ts1 ts2 g.source).filter fun r => resourceKey py r = g.key
  once : ((folded py h tenantId ts1 ts2).map DiffGroup.resource).Nodup
  within : (resources py h tenantId ts1 ts2).card ≤ diffHardCap →
    result.truncated = false ∧ ∀ x ∈ resources py h tenantId ts1 ts2,
      x ∈ (folded py h tenantId ts1 ts2).map DiffGroup.resource
  beyond : diffHardCap < (resources py h tenantId ts1 ts2).card →
    result.truncated = true ∧ result.entries.length = diffHardCap

/-- The resources with a row within the cap, in the order of their first such row, nodes
first. -/
def resourcesWithin : List Resource :=
  ((groupBy (resourceKey py) (fetched h tenantId ts1 ts2 .node)).map fun g => (Source.node, g.1)) ++
    (groupBy (resourceKey py) (fetched h tenantId ts1 ts2 .edge)).map fun g => (Source.edge, g.1)

/-- A row beyond the cap is of none of the first `diffHardCap` resources with a row within
it, and there are more of these than that. -/
def FetchCovers : Prop :=
  ∀ source, ∀ r ∈ windowRows h tenantId ts1 ts2 source, withinCap h tenantId ts1 ts2 source r = false →
    diffHardCap < (resourcesWithin py h tenantId ts1 ts2).length ∧
      (source, resourceKey py r) ∉ (resourcesWithin py h tenantId ts1 ts2).take diffHardCap

end Exact

section Lemmas
variable {py : Reader} {h : Histories} {tenantId : Nat} {ts1 ts2 : Time} {source : Source}
  {r : HistoryRow}

/-! ## What is fetched -/

theorem fetched_eq (source : Source) :
    fetched h tenantId ts1 ts2 source =
      (windowRows h tenantId ts1 ts2 source).filter (withinCap h tenantId ts1 ts2 source) :=
  (filter_orderBy _ _).symm

theorem mem_fetched : r ∈ fetched h tenantId ts1 ts2 source ↔
    r ∈ windowRows h tenantId ts1 ts2 source ∧ withinCap h tenantId ts1 ts2 source r = true := by
  rw [fetched_eq, List.mem_filter]

variable {x : Resource}

theorem mem_resources : x ∈ resources py h tenantId ts1 ts2 ↔
    ∃ r ∈ windowRows h tenantId ts1 ts2 x.1, resourceKey py r = x.2 := by
  obtain ⟨source, key⟩ := x
  simp only [resources, List.mem_toFinset, List.mem_append, List.mem_map, Prod.mk.injEq]
  cases source <;> simp

/-! ## The groups -/

variable {g : DiffGroup}

theorem fetchedGroups_rows (hg : g ∈ fetchedGroups py h tenantId ts1 ts2) :
    g.rows = (fetched h tenantId ts1 ts2 g.source).filter fun r => resourceKey py r = g.key := by
  obtain hg | hg := List.mem_append.mp hg
  · obtain ⟨g', hg', rfl⟩ := List.mem_map.mp hg
    exact mem_groupBy hg'
  · obtain ⟨g', hg', rfl⟩ := List.mem_map.mp hg
    exact mem_groupBy hg'

theorem fetchedGroups_resources :
    (fetchedGroups py h tenantId ts1 ts2).map DiffGroup.resource =
      resourcesWithin py h tenantId ts1 ts2 := by
  rw [fetchedGroups, diffGroups, List.map_append, List.map_map, List.map_map]
  rfl

theorem folded_resources :
    (folded py h tenantId ts1 ts2).map DiffGroup.resource =
      (resourcesWithin py h tenantId ts1 ts2).take diffHardCap := by
  rw [folded, List.map_take, fetchedGroups_resources]

theorem mem_resourcesWithin : x ∈ resourcesWithin py h tenantId ts1 ts2 ↔
    ∃ r ∈ fetched h tenantId ts1 ts2 x.1, resourceKey py r = x.2 := by
  have hside : ∀ source key, (∃ g ∈ groupBy (resourceKey py) (fetched h tenantId ts1 ts2 source),
      g.1 = key) ↔ ∃ r ∈ fetched h tenantId ts1 ts2 source, resourceKey py r = key := by
    intro source key
    have hkeys : key ∈ (groupBy (resourceKey py) (fetched h tenantId ts1 ts2 source)).map Prod.fst ↔
        ∃ r ∈ fetched h tenantId ts1 ts2 source, resourceKey py r = key := mem_keys_groupBy
    rwa [List.mem_map] at hkeys
  obtain ⟨source, key⟩ := x
  simp only [resourcesWithin, List.mem_append, List.mem_map, Prod.mk.injEq]
  cases source <;> simp [← hside]

theorem resourcesWithin_nodup : (resourcesWithin py h tenantId ts1 ts2).Nodup := by
  have hside : ∀ source, ((groupBy (resourceKey py) (fetched h tenantId ts1 ts2 source)).map
      fun g => (source, g.1)).Nodup := by
    intro source
    have hinj : Function.Injective fun key : GrpKey => (source, key) :=
      fun _ _ heq => (Prod.mk.inj heq).2
    have hkeys := List.Nodup.map hinj
      (groupBy_nodup (resourceKey py) (fetched h tenantId ts1 ts2 source))
    rw [List.map_map] at hkeys
    exact hkeys
  refine List.Nodup.append (hside .node) (hside .edge) ?_
  intro x hnode hedge
  obtain ⟨g, -, rfl⟩ := List.mem_map.mp hnode
  obtain ⟨g', -, heq⟩ := List.mem_map.mp hedge
  cases heq

theorem resourcesWithin_subset (hx : x ∈ resourcesWithin py h tenantId ts1 ts2) :
    x ∈ resources py h tenantId ts1 ts2 := by
  obtain ⟨r, hr, hkey⟩ := mem_resourcesWithin.mp hx
  exact mem_resources.mpr ⟨r, (mem_fetched.mp hr).1, hkey⟩

theorem resourcesWithin_length :
    (resourcesWithin py h tenantId ts1 ts2).length ≤ (resources py h tenantId ts1 ts2).card := by
  rw [← List.toFinset_card_of_nodup resourcesWithin_nodup]
  refine Finset.card_le_card fun x hx => ?_
  exact resourcesWithin_subset (List.mem_toFinset.mp hx)

/-! ## The loop -/

variable (py) in
/-- Without `changed_only` every group has an entry. -/
theorem buildDiffEntry_some (g : DiffGroup) : ∃ entry, buildDiffEntry py false g = some entry := by
  simp [buildDiffEntry]

variable (py) in
/-- Without filters the loop takes entries up to the cap, and says whether there were more. -/
theorem foldLoop_unfiltered (entries : List TopologyDiffEntry) (groups : List DiffGroup)
    (hlen : entries.length ≤ diffHardCap) :
    (foldLoop py false none entries groups).1.map some =
        entries.map some ++ (groups.take (diffHardCap - entries.length)).map (buildDiffEntry py false) ∧
      (foldLoop py false none entries groups).2 =
        decide (diffHardCap < entries.length + groups.length) := by
  induction groups generalizing entries with
  | nil =>
    refine ⟨by simp [foldLoop], ?_⟩
    simpa [foldLoop] using hlen
  | cons g groups ih =>
    obtain ⟨entry, hentry⟩ := buildDiffEntry_some py g
    simp only [foldLoop, hentry, Option.any_none, Bool.false_eq_true, if_false]
    by_cases hfull : diffHardCap ≤ entries.length
    · have hzero : diffHardCap - entries.length = 0 := Nat.sub_eq_zero_of_le hfull
      refine ⟨by simp [hfull, hzero], ?_⟩
      simp only [hfull, if_true, List.length_cons]
      exact (decide_eq_true (by omega)).symm
    · have hlen' : (entries ++ [entry]).length ≤ diffHardCap := by
        rw [List.length_append, List.length_singleton]
        omega
      obtain ⟨hfirst, hsecond⟩ := ih (entries ++ [entry]) hlen'
      simp only [hfull, if_false]
      refine ⟨?_, ?_⟩
      · have hroom : diffHardCap - entries.length = diffHardCap - (entries ++ [entry]).length + 1 := by
          rw [List.length_append, List.length_singleton]
          omega
        rw [hfirst, hroom, List.take_succ_cons, List.map_cons, hentry]
        simp
      · rw [hsecond]
        simp only [List.length_append, List.length_cons, List.length_nil, decide_eq_decide]
        omega

theorem queryDiff_unfiltered (hts : ts1 < ts2) :
    ∃ result, queryDiff py h tenantId ts1 ts2 false none = .ok result ∧
      result.entries.map some =
        (folded py h tenantId ts1 ts2).map (buildDiffEntry py false) ∧
      result.truncated =
        decide (diffHardCap < (resourcesWithin py h tenantId ts1 ts2).length) := by
  obtain ⟨hentries, htruncated⟩ := foldLoop_unfiltered py []
    (fetchedGroups py h tenantId ts1 ts2) (Nat.zero_le _)
  have hlength : (fetchedGroups py h tenantId ts1 ts2).length =
      (resourcesWithin py h tenantId ts1 ts2).length := by
    rw [← fetchedGroups_resources, List.length_map]
  refine ⟨_, by rw [queryDiff, if_neg (not_not_intro hts)], hentries, ?_⟩
  refine htruncated.trans ?_
  rw [List.length_nil, Nat.zero_add, hlength]

/-! ## Exactness -/

theorem folded_fetched (hg : g ∈ folded py h tenantId ts1 ts2) :
    g ∈ fetchedGroups py h tenantId ts1 ts2 := List.mem_of_mem_take hg

theorem whole_of_covered (hg : g ∈ fetchedGroups py h tenantId ts1 ts2)
    (hall : ∀ r ∈ windowRows h tenantId ts1 ts2 g.source, resourceKey py r = g.key →
      withinCap h tenantId ts1 ts2 g.source r = true) :
    g.rows = (windowRows h tenantId ts1 ts2 g.source).filter fun r => resourceKey py r = g.key := by
  rw [fetchedGroups_rows hg, fetched_eq, List.filter_filter]
  refine List.filter_congr fun r hr => ?_
  by_cases hkey : resourceKey py r = g.key
  · rw [hall r hr hkey]
    exact Bool.and_true _
  · simp [hkey]

theorem left_out_not_mem (hg : g ∈ fetchedGroups py h tenantId ts1 ts2)
    (hout : withinCap h tenantId ts1 ts2 g.source r = false) : r ∉ g.rows := by
  intro hr
  rw [fetchedGroups_rows hg] at hr
  have hin := (mem_fetched.mp (List.mem_filter.mp hr).1).2
  rw [hout] at hin
  cases hin

variable {result : TopologyDiffResult}

theorem exact_of_covers (hcovers : FetchCovers py h tenantId ts1 ts2)
    (hentries : result.entries.map some =
      (folded py h tenantId ts1 ts2).map (buildDiffEntry py false))
    (htruncated : result.truncated =
      decide (diffHardCap < (resourcesWithin py h tenantId ts1 ts2).length)) :
    DiffExact py h tenantId ts1 ts2 result := by
  have hknown : ∀ g ∈ folded py h tenantId ts1 ts2, g.resource ∈ resources py h tenantId ts1 ts2 := by
    intro g hg
    refine resourcesWithin_subset ?_
    rw [← fetchedGroups_resources]
    exact List.mem_map_of_mem (folded_fetched hg)
  have hlength : result.entries.length =
      min diffHardCap (resourcesWithin py h tenantId ts1 ts2).length := by
    have hmap := congrArg List.length hentries
    rw [List.length_map, List.length_map, folded, List.length_take] at hmap
    rw [hmap, ← fetchedGroups_resources, List.length_map]
  have honce : ((folded py h tenantId ts1 ts2).map DiffGroup.resource).Nodup := by
    rw [folded_resources]
    exact resourcesWithin_nodup.sublist (List.take_sublist _ _)
  refine ⟨hentries, hknown, ?_, honce, ?_, ?_⟩
  · intro g hg
    refine whole_of_covered (folded_fetched hg) fun r hr hkey => ?_
    by_contra hout
    have hnot := (hcovers g.source r hr (Bool.eq_false_iff.mpr hout)).2
    rw [← folded_resources, hkey] at hnot
    exact hnot (List.mem_map_of_mem hg)
  · intro hcard
    have hfew : ¬diffHardCap < (resourcesWithin py h tenantId ts1 ts2).length :=
      Nat.not_lt.mpr (le_trans resourcesWithin_length hcard)
    refine ⟨by rw [htruncated]; exact decide_eq_false hfew, fun x hx => ?_⟩
    obtain ⟨r, hr, hkey⟩ := mem_resources.mp hx
    have hin : withinCap h tenantId ts1 ts2 x.1 r = true := by
      by_contra hout
      exact hfew (hcovers x.1 r hr (Bool.eq_false_iff.mpr hout)).1
    rw [folded_resources, List.take_of_length_le (Nat.not_lt.mp hfew)]
    exact mem_resourcesWithin.mpr ⟨r, mem_fetched.mpr ⟨hr, hin⟩, hkey⟩
  · intro hcard
    have hmany : diffHardCap < (resourcesWithin py h tenantId ts1 ts2).length := by
      by_contra hfew
      -- with few resources within the cap nothing was left out, so these are all
      have hall : resources py h tenantId ts1 ts2 ⊆
          (resourcesWithin py h tenantId ts1 ts2).toFinset := by
        intro x hx
        obtain ⟨r, hr, hkey⟩ := mem_resources.mp hx
        have hin : withinCap h tenantId ts1 ts2 x.1 r = true := by
          by_contra hout
          exact hfew (hcovers x.1 r hr (Bool.eq_false_iff.mpr hout)).1
        exact List.mem_toFinset.mpr (mem_resourcesWithin.mpr ⟨r, mem_fetched.mpr ⟨hr, hin⟩, hkey⟩)
      have hle := Finset.card_le_card hall
      rw [List.toFinset_card_of_nodup resourcesWithin_nodup] at hle
      omega
    refine ⟨by rw [htruncated]; exact decide_eq_true hmany, ?_⟩
    rw [hlength]
    omega

theorem covers_of_exact (htruncated : result.truncated =
      decide (diffHardCap < (resourcesWithin py h tenantId ts1 ts2).length))
    (hexact : DiffExact py h tenantId ts1 ts2 result) : FetchCovers py h tenantId ts1 ts2 := by
  intro source r hr hout
  -- an entry of the row's resource would be folded without it
  have hnot : (source, resourceKey py r) ∉ (resourcesWithin py h tenantId ts1 ts2).take diffHardCap := by
    intro hmem
    rw [← folded_resources] at hmem
    obtain ⟨g, hg, hres⟩ := List.mem_map.mp hmem
    obtain ⟨rfl, hkey⟩ := Prod.mk.inj hres
    have hwhole := hexact.whole g hg
    have hin : r ∈ g.rows := by
      rw [hwhole, List.mem_filter]
      exact ⟨hr, decide_eq_true hkey.symm⟩
    exact left_out_not_mem (folded_fetched hg) hout hin
  refine ⟨?_, hnot⟩
  by_contra hfew
  have hfalse : result.truncated = false := by
    rw [htruncated]
    exact decide_eq_false hfew
  have hcard : (resources py h tenantId ts1 ts2).card ≤ diffHardCap := by
    by_contra hmany
    have htrue := (hexact.beyond (Nat.not_le.mp hmany)).1
    rw [hfalse] at htrue
    cases htrue
  have hmem := (hexact.within hcard).2 (source, resourceKey py r) (mem_resources.mpr ⟨r, hr, rfl⟩)
  rw [folded_resources] at hmem
  exact hnot hmem

/-! ## Groups and ranks -/

/-- A group's first row, when the rows of the group have one key. -/
theorem grpFirst_alone {rows : List HistoryRow}
    (halone : ∀ x ∈ rows, x.grpKey = r.grpKey → x.key = r.key) : grpFirst rows r = r.key := by
  unfold grpFirst
  cases hhead : (orderBy HistoryRow.key (rows.filter fun x => x.grpKey = r.grpKey)).head? with
  | none => rfl
  | some first =>
    have hmem := List.mem_of_mem_head? hhead
    rw [mem_orderBy, List.mem_filter, decide_eq_true_eq] at hmem
    exact halone first hmem.1 hmem.2

/-- A row ranks behind the groups that begin before its own. -/
theorem lt_grpRank {rows : List HistoryRow} {keys : List (Time ×ₗ Nat)} (hnodup : keys.Nodup)
    (hbefore : ∀ key ∈ keys, key ∈ rows.map (grpFirst rows) ∧ key < grpFirst rows r) :
    keys.length < grpRank rows r := by
  have hsub : keys ⊆ (rows.map (grpFirst rows)).dedup.filter (· < grpFirst rows r) := by
    intro key hkey
    obtain ⟨hmem, hlt⟩ := hbefore key hkey
    exact List.mem_filter.mpr ⟨List.mem_dedup.mpr hmem, decide_eq_true hlt⟩
  exact Nat.lt_succ_of_le (hnodup.subperm hsub).length_le

end Lemmas

/-- In every history and window, `query_diff` without filters is exact if and only if the
fetch covers the window. -/
theorem diff_exact_iff_fetch_covers (py : Reader) (h : Histories) (tenantId : Nat) (ts1 ts2 : Time)
    (hts : ts1 < ts2) :
    ∃ result, queryDiff py h tenantId ts1 ts2 false none = .ok result ∧
      (DiffExact py h tenantId ts1 ts2 result ↔ FetchCovers py h tenantId ts1 ts2) := by
  obtain ⟨result, hresult, hentries, htruncated⟩ := queryDiff_unfiltered hts
  exact ⟨result, hresult, covers_of_exact htruncated,
    fun hcovers => exact_of_covers hcovers hentries htruncated⟩

/-! ## A deleted node with many rows -/

/-- A reader that knows one id. -/
def plainReader : Reader where
  loads _ := none
  str
    | .str s => s
    | _ => ""
  uuid s := if s = "1" then some 1 else none
  eq a b := a == b

/-- The history of a node: its rows lost their id when it was deleted. -/
def deletedRow (i : Nat) : HistoryRow :=
  ⟨i, 0, none, .updated, .obj [("before", .obj [("id", .str "1")])], i⟩

/-- Another node, created after that. -/
def laterRow : HistoryRow := ⟨1001, 0, some 2, .created, .null, 1001⟩

def deletedThenLater : Histories := ⟨(List.range 1001).map deletedRow ++ [laterRow], []⟩

theorem diff_exact_iff_fetch_covers_later :
    ∃ result, queryDiff plainReader ⟨[laterRow], []⟩ 0 0 5000 false none = .ok result ∧
      (DiffExact plainReader ⟨[laterRow], []⟩ 0 0 5000 result ↔
        FetchCovers plainReader ⟨[laterRow], []⟩ 0 0 5000) :=
  diff_exact_iff_fetch_covers plainReader ⟨[laterRow], []⟩ 0 0 5000 (by decide)

theorem deletedThenLater_side : deletedThenLater.side .node = deletedThenLater.node := rfl

theorem mem_deletedThenLater {r : HistoryRow} : r ∈ deletedThenLater.node ↔
    (∃ i < 1001, r = deletedRow i) ∨ r = laterRow := by
  simp [deletedThenLater, eq_comm]

theorem windowed_deletedThenLater :
    windowed 0 (-1) 5000 deletedThenLater.node = deletedThenLater.node := by
  refine List.filter_eq_self.mpr fun r hr => ?_
  obtain ⟨i, hi, rfl⟩ | rfl := mem_deletedThenLater.mp hr
  · have hlow : (-1 : Int) < (i : Int) := by omega
    have hhigh : (i : Int) ≤ 5000 := by omega
    simp only [deletedRow, hlow, hhigh, decide_true, Bool.and_self]
  · decide

/-- Each row of the deleted node is a group of its own, before the other node's. -/
theorem laterRow_rank : 1001 < grpRank deletedThenLater.node laterRow := by
  have hlater : grpFirst deletedThenLater.node laterRow = laterRow.key := by
    refine grpFirst_alone fun x hx hkey => ?_
    obtain ⟨i, -, rfl⟩ | rfl := mem_deletedThenLater.mp hx
    · cases hkey
    · rfl
  have hdeleted : ∀ i < 1001, grpFirst deletedThenLater.node (deletedRow i) = (deletedRow i).key := by
    intro i hi
    refine grpFirst_alone fun x hx hkey => ?_
    obtain ⟨j, -, rfl⟩ | rfl := mem_deletedThenLater.mp hx
    · obtain rfl : j = i := GrpKey.history.inj hkey
      rfl
    · cases hkey
  have hkeys : ((List.range 1001).map fun i => (deletedRow i).key).Nodup := by
    refine List.Nodup.map ?_ List.nodup_range
    intro i j hij
    exact (Prod.mk.inj (toLex.injective hij)).2
  have hbefore : ∀ key ∈ (List.range 1001).map fun i => (deletedRow i).key,
      key ∈ deletedThenLater.node.map (grpFirst deletedThenLater.node) ∧
        key < grpFirst deletedThenLater.node laterRow := by
    intro key hkey
    obtain ⟨i, hi, rfl⟩ := List.mem_map.mp hkey
    have hi : i < 1001 := List.mem_range.mp hi
    refine ⟨List.mem_map.mpr ⟨deletedRow i, mem_deletedThenLater.mpr (.inl ⟨i, hi, rfl⟩),
      hdeleted i hi⟩, ?_⟩
    rw [hlater]
    refine Prod.Lex.toLex_lt_toLex.mpr (.inl ?_)
    show (i : Int) < 1001
    omega
  have hrank := lt_grpRank hkeys hbefore
  rwa [List.length_map, List.length_range] at hrank

/-- The later node is left out, and the result says that it is complete. -/
theorem later_node_left_out :
    ∃ result, queryDiff plainReader deletedThenLater 0 (-1) 5000 false none = .ok result ∧
      ¬DiffExact plainReader deletedThenLater 0 (-1) 5000 result := by
  obtain ⟨result, hresult, -, htruncated⟩ :=
    queryDiff_unfiltered (show (-1 : Time) < 5000 by decide)
  refine ⟨result, hresult, fun hexact => ?_⟩
  have hcovers := covers_of_exact htruncated hexact
  have hlater : laterRow ∈ windowRows deletedThenLater 0 (-1) 5000 .node := by
    refine (mem_orderBy _).mpr ?_
    rw [deletedThenLater_side, windowed_deletedThenLater]
    exact mem_deletedThenLater.mpr (.inr rfl)
  have hout : withinCap deletedThenLater 0 (-1) 5000 .node laterRow = false := by
    refine decide_eq_false (Nat.not_le.mpr ?_)
    rw [deletedThenLater_side, windowed_deletedThenLater]
    exact laterRow_rank
  have hmany := (hcovers .node laterRow hlater hout).1
  have hsub : resourcesWithin plainReader deletedThenLater 0 (-1) 5000 ⊆
      [(.node, .id 1), (.node, .id 2)] := by
    rintro ⟨source, key⟩ hx
    obtain ⟨r, hr, rfl⟩ := mem_resourcesWithin.mp hx
    have hr := (mem_orderBy _).mp (mem_fetched.mp hr).1
    have hr : r ∈ deletedThenLater.side source := (List.mem_filter.mp hr).1
    cases source with
    | edge => cases hr
    | node =>
      obtain ⟨i, -, rfl⟩ | rfl := mem_deletedThenLater.mp hr
      · exact List.mem_cons_self
      · exact List.mem_cons_of_mem _ List.mem_cons_self
  have hlength := (resourcesWithin_nodup.subperm hsub).length_le
  have hcap : diffHardCap < 2 := lt_of_lt_of_le hmany hlength
  exact absurd hcap (by decide)

end Meho.Topology
