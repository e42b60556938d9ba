import Meho.Lib.Keyset
import Meho.Topology.Timeline

/- Following the timeline's cursors.

A walk asks for the first page and then for the page of each `next_cursor`, until a page
has none. Between two pages rows may come into the history tables, the columns of rows
but their id and timestamp may change, and the live graph may change at will; no row goes
away.

Results: a page is one of keyset paging over the matching rows of both tables
(`queryTimeline_page`), so the walk ends and returns each matching row once
(`timeline_visits_once`). -/
namespace Meho.Topology
open Meho.Lib

/-! ## The order of entries -/

/-- The instant on a scale that starts at zero. -/
def micros (d : DateTime) : Nat := (d.instant + dayMicros).toNat

theorem micros_lt {a b : DateTime} : micros a < micros b ↔ a.instant < b.instant := by
  have ha := a.instant_gt
  have hb := b.instant_gt
  unfold micros
  omega

theorem micros_inj {a b : DateTime} : micros a = micros b ↔ a.instant = b.instant := by
  have ha := a.instant_gt
  have hb := b.instant_gt
  unfold micros
  omega

def Source.rank : Source → Nat
  | .node => 1
  | .edge => 0

/-- The place of an entry in the order of the timeline, newest first. -/
abbrev Place := (Nat ×ₗ (Nat ×ₗ Nat))ᵒᵈ

def TopologyTimelineEntry.place (e : TopologyTimelineEntry) : Place :=
  OrderDual.toDual (toLex (micros e.validFrom, toLex (e.historyId, e.source.rank)))

open TopologyTimelineEntry (place)

/-- `a` comes before `b`: newer, at one timestamp the higher id, and at one id the node. -/
def TopologyTimelineEntry.Precedes (a b : TopologyTimelineEntry) : Prop :=
  b.pair < a.pair ∨ b.pair = a.pair ∧ a.source = .node ∧ b.source = .edge

variable {a b : TopologyTimelineEntry}

theorem pair_lt : a.pair < b.pair ↔
    micros a.validFrom < micros b.validFrom ∨
      micros a.validFrom = micros b.validFrom ∧ a.historyId < b.historyId := by
  rw [micros_lt, micros_inj]
  exact Prod.Lex.toLex_lt_toLex

theorem pair_inj : a.pair = b.pair ↔
    micros a.validFrom = micros b.validFrom ∧ a.historyId = b.historyId := by
  rw [micros_inj]
  exact Prod.mk.injEq _ _ _ _ ▸ toLex.injective.eq_iff

theorem place_lt : a.place < b.place ↔
    micros b.validFrom < micros a.validFrom ∨
      micros b.validFrom = micros a.validFrom ∧ (b.historyId < a.historyId ∨
        b.historyId = a.historyId ∧ b.source.rank < a.source.rank) := by
  show toLex (micros b.validFrom, toLex (b.historyId, b.source.rank)) <
    toLex (micros a.validFrom, toLex (a.historyId, a.source.rank)) ↔ _
  rw [Prod.Lex.toLex_lt_toLex, Prod.Lex.toLex_lt_toLex]

theorem place_inj (h : a.place = b.place) : a.historyId = b.historyId ∧ a.source = b.source := by
  have hinner := (Prod.mk.inj (toLex.injective (OrderDual.toDual.injective h))).2
  obtain ⟨hid, hrank⟩ := Prod.mk.inj (toLex.injective hinner)
  refine ⟨hid, ?_⟩
  cases ha : a.source <;> cases hb : b.source <;> simp_all [Source.rank]

theorem precedes_of_place_lt (h : a.place < b.place) : a.Precedes b := by
  rw [place_lt] at h
  obtain htime | ⟨htime, hid | ⟨hid, hrank⟩⟩ := h
  · exact .inl (pair_lt.mpr (.inl htime))
  · exact .inl (pair_lt.mpr (.inr ⟨htime, hid⟩))
  · refine .inr ⟨pair_inj.mpr ⟨htime, hid⟩, ?_⟩
    cases ha : a.source <;> cases hb : b.source <;> simp_all [Source.rank]

/-! ## One page -/

section Page
variable (py : Reader) (s : TimelineStore) (f : TimelineFilter)

/-- The matching rows of one table. -/
def sideEntries (source : Source) : List TopologyTimelineEntry :=
  ((s.side source).filter (matching s f source)).map (rowToTimelineEntry py source)

/-- The matching rows of both tables. -/
def timelineEntries : List TopologyTimelineEntry :=
  sideEntries py s f .node ++ sideEntries py s f .edge

/-- A token names the place of an entry, and no token names none. -/
def Names (token : Option String) (c : Option Place) : Prop :=
  (token = none ∧ c = none) ∨
    ∃ e : TopologyTimelineEntry, token = some (encodeTimelineCursor e.position) ∧ c = some e.place

variable {py s f} {source : Source}

variable {e : TopologyTimelineEntry}

theorem mem_sideEntries : e ∈ sideEntries py s f source ↔
    ∃ r ∈ s.side source, matching s f source r ∧ rowToTimelineEntry py source r = e := by
  simp only [sideEntries, List.mem_map, List.mem_filter, and_assoc]

theorem mem_timelineEntries : e ∈ timelineEntries py s f ↔
    ∃ r ∈ s.side e.source, matching s f e.source r ∧ rowToTimelineEntry py e.source r = e := by
  rw [timelineEntries, List.mem_append, mem_sideEntries, mem_sideEntries]
  constructor
  · rintro (⟨r, hr, hmatch, rfl⟩ | ⟨r, hr, hmatch, rfl⟩)
    · exact ⟨r, hr, hmatch, rfl⟩
    · exact ⟨r, hr, hmatch, rfl⟩
  · intro h
    cases hsource : e.source with
    | node => exact .inl (by rwa [hsource] at h)
    | edge => exact .inr (by rwa [hsource] at h)

theorem sideEntries_source (h : e ∈ sideEntries py s f source) : e.source = source := by
  obtain ⟨r, -, -, rfl⟩ := mem_sideEntries.mp h
  rfl

theorem sideEntries_nodup : ((sideEntries py s f source).map place).Nodup := by
  have hids : ((sideEntries py s f source).map TopologyTimelineEntry.historyId).Nodup := by
    rw [sideEntries, List.map_map]
    exact (List.filter_sublist.map TimelineRow.historyId).nodup (s.side_ids source)
  rw [List.nodup_iff_pairwise_ne, List.pairwise_map] at hids ⊢
  exact hids.imp fun hne heq => hne (place_inj heq).1

theorem timelineEntries_nodup : ((timelineEntries py s f).map place).Nodup := by
  rw [timelineEntries, List.map_append, List.nodup_append]
  refine ⟨sideEntries_nodup, sideEntries_nodup, ?_⟩
  rintro x hx y hy rfl
  obtain ⟨a, ha, rfl⟩ := List.mem_map.mp hx
  obtain ⟨b, hb, heq⟩ := List.mem_map.mp hy
  have hsource := (place_inj heq).2
  rw [sideEntries_source ha, sideEntries_source hb] at hsource
  cases hsource

variable (py) in
/-- The cursor's condition is that the row's place lies beyond the cursor's. -/
theorem pastCursor_iff (e : TopologyTimelineEntry) (r : TimelineRow) :
    pastCursor source e.position.stampUtc r = true ↔ e.place < (rowToTimelineEntry py source r).place := by
  obtain ⟨ts, id, src, kind, resource, summary, audit⟩ := e
  rw [place_lt]
  show _ ↔ micros r.validFrom < micros ts ∨ micros r.validFrom = micros ts ∧
    (r.historyId < id ∨ r.historyId = id ∧ source.rank < src.rank)
  rw [micros_lt, micros_inj]
  -- the two tests on the sources are settled by the cases
  simp only [pastCursor, Bool.or_eq_true, Bool.and_eq_true, decide_eq_true_eq]
  cases source <;> cases src <;>
    simp [TimelineCursorPosition.stampUtc, TopologyTimelineEntry.position, Source.rank]

variable {c : Option Place}

variable (py) in
theorem names_position {token : Option String} (h : Names token c) :
    ∃ position, cursorPosition token = .ok position ∧
      ∀ (source : Source) (r : TimelineRow), position.all (pastCursor source · r) = true ↔
        ∀ x ∈ c, x < (rowToTimelineEntry py source r).place := by
  obtain ⟨rfl, rfl⟩ | ⟨e, rfl, rfl⟩ := h
  · exact ⟨none, rfl, fun _ _ => ⟨fun _ x hx => (by cases hx), fun _ => rfl⟩⟩
  · refine ⟨some e.position.stampUtc, ?_, fun source r => ?_⟩
    · rw [cursorPosition, decode_encode]
    · rw [Option.all_some, pastCursor_iff py]
      exact ⟨fun h x hx => Option.some.inj hx ▸ h, fun h => h _ rfl⟩

theorem timelineSide_eq {position : Option TimelineCursorPosition}
    (hpast : ∀ r, position.all (pastCursor source · r) = true ↔
      ∀ x ∈ c, x < (rowToTimelineEntry py source r).place)
    (fetch : Nat) :
    timelineSide py s f position fetch source =
      (orderBy place
        (beyond place c (sideEntries py s f source))).take fetch := by
  let rows := (s.side source).filter fun r =>
    matching s f source r && position.all (pastCursor source · r)
  have hids : (rows.map TimelineRow.historyId).Nodup :=
    (List.filter_sublist.map TimelineRow.historyId).nodup (s.side_ids source)
  have hstrict : (orderBy TimelineRow.key rows).Pairwise fun a b => a.key < b.key := by
    refine orderBy_strictly ?_
    rw [List.nodup_iff_pairwise_ne, List.pairwise_map] at hids ⊢
    exact hids.imp fun hne heq =>
      hne (Prod.mk.inj (toLex.injective (OrderDual.toDual.injective heq))).2
  rw [timelineSide, timelineSql, List.map_take]
  refine congrArg (List.take fetch) (eq_of_strictly ?_
    (orderBy_strictly (beyond_nodup sideEntries_nodup)) fun e => ?_)
  · rw [List.pairwise_map]
    refine hstrict.imp fun {a b} hlt => place_lt.mpr ?_
    have hlt : toLex (b.validFrom.instant, b.historyId) < toLex (a.validFrom.instant, a.historyId) := hlt
    obtain htime | ⟨htime, hid⟩ := Prod.Lex.toLex_lt_toLex.mp hlt
    · exact .inl (micros_lt.mpr htime)
    · exact .inr ⟨micros_inj.mpr htime, .inl hid⟩
  · rw [mem_orderBy, mem_beyond, mem_sideEntries]
    simp only [List.mem_map, mem_orderBy, List.mem_filter, Bool.and_eq_true, hpast]
    constructor
    · rintro ⟨r, ⟨hr, hmatch, hbeyond⟩, rfl⟩
      exact ⟨⟨r, hr, hmatch, rfl⟩, hbeyond⟩
    · rintro ⟨⟨r, hr, hmatch, rfl⟩, hbeyond⟩
      exact ⟨r, ⟨hr, hmatch, hbeyond⟩, rfl⟩

variable {nodeRows edgeRows : List TopologyTimelineEntry}

section
variable (hnodes : ∀ n ∈ nodeRows, n.source = .node) (hedges : ∀ e ∈ edgeRows, e.source = .edge)
include hnodes hedges

theorem mergeTimelinePages_eq (limit : Nat) :
    mergeTimelinePages nodeRows edgeRows limit =
      mergeTake place nodeRows edgeRows limit := by
  induction limit generalizing nodeRows edgeRows with
  | zero => simp [mergeTimelinePages, mergeTake]
  | succ limit ih =>
    cases nodeRows with
    | nil =>
      have hrest : ∀ rows : List TopologyTimelineEntry, mergeTake place [] rows
          limit = rows.take limit := by
        intro rows
        cases limit <;> simp [mergeTake]
      cases edgeRows with
      | nil => rfl
      | cons e edgeRows =>
        rw [mergeTimelinePages, mergeTake, ih hnodes fun x hx => hedges x (List.mem_cons_of_mem e hx),
          hrest, List.take_succ_cons]
    | cons n nodeRows =>
      have htail : ∀ x ∈ nodeRows, x.source = .node := fun x hx => hnodes x (List.mem_cons_of_mem n hx)
      cases edgeRows with
      | nil =>
        have hrest : mergeTake place nodeRows [] limit = nodeRows.take limit := by
          cases limit <;> cases nodeRows <;> simp [mergeTake]
        rw [mergeTimelinePages, mergeTake, ih htail hedges, hrest, List.take_succ_cons]
        exact List.cons_ne_nil n nodeRows
      | cons e edgeRows =>
        have hn : n.source.rank = 1 := by rw [hnodes n List.mem_cons_self]; rfl
        have he : e.source.rank = 0 := by rw [hedges e List.mem_cons_self]; rfl
        -- on a tie the node's row comes first, which is what the rank of its source says
        have hle : n.place ≤ e.place ↔ ¬n.pair < e.pair := by
          rw [← not_lt, place_lt, pair_lt, hn, he]
          omega
        have hfirst := ih htail hedges
        have hsecond := ih hnodes fun x hx => hedges x (List.mem_cons_of_mem e hx)
        rw [mergeTimelinePages, mergeTake, hfirst, hsecond]
        split
        next hgt => rw [if_pos (hle.mpr (lt_asymm hgt))]
        next =>
          split
          next hlt => rw [if_neg (fun h => hle.mp h hlt)]
          next hge => rw [if_pos (hle.mpr hge)]

theorem consumed_le {rows : List TopologyTimelineEntry} (hrows : rows.Perm (nodeRows ++ edgeRows))
    (limit : Nat) :
    ((rows.take limit).filter fun x => x.source = .node).length ≤ nodeRows.length ∧
      (rows.take limit).length - ((rows.take limit).filter fun x => x.source = .node).length ≤
        edgeRows.length := by
  have hnode : ((nodeRows ++ edgeRows).filter fun x => x.source = .node) = nodeRows := by
    rw [List.filter_append, List.filter_eq_self.mpr fun n hn => decide_eq_true (hnodes n hn),
      List.filter_eq_nil_iff.mpr fun e he => by simp [hedges e he], List.append_nil]
  have hedge : ((nodeRows ++ edgeRows).filter fun x => !decide (x.source = .node)) = edgeRows := by
    rw [List.filter_append, List.filter_eq_nil_iff.mpr fun n hn => by simp [hnodes n hn],
      List.filter_eq_self.mpr fun e he => by simp [hedges e he], List.nil_append]
  have hfirst := (((List.take_sublist limit rows).filter fun x => x.source = .node).length_le).trans_eq
    (hrows.filter _).length_eq
  have hsecond := (((List.take_sublist limit rows).filter
    fun x => !decide (x.source = .node)).length_le).trans_eq (hrows.filter _).length_eq
  rw [hnode] at hfirst
  rw [hedge] at hsecond
  have hsum := (rows.take limit).length_eq_length_filter_add fun x => decide (x.source = .node)
  exact ⟨hfirst, by omega⟩

/-- The cursor of the next page is the last row's, where the two sides have more rows than
the page holds. -/
theorem computeNextCursor_eq {rows : List TopologyTimelineEntry} {limit : Nat}
    (hrows : rows.Perm (nodeRows.take (limit + 1) ++ edgeRows.take (limit + 1))) :
    computeNextCursor (nodeRows.take (limit + 1)) (edgeRows.take (limit + 1)) (rows.take limit) limit =
      if limit < nodeRows.length + edgeRows.length then
        (rows.take limit).getLast?.map fun e => encodeTimelineCursor e.position
      else none := by
  obtain ⟨hfirst, hsecond⟩ := consumed_le (fun n hn => hnodes n (List.mem_of_mem_take hn))
    (fun e he => hedges e (List.mem_of_mem_take he)) hrows limit
  have hlength := hrows.length_eq
  rw [List.length_append, List.length_take, List.length_take] at hlength
  rw [List.length_take] at hfirst hsecond
  unfold computeNextCursor
  cases hlast : (rows.take limit).getLast? with
  | none => simp
  | some last =>
    simp only [mergeHasLeftovers, Option.map_some, Bool.or_eq_true, decide_eq_true_eq,
      List.length_take] at hfirst hsecond ⊢
    generalize ((rows.take limit).filter fun x => x.source = .node).length = consumed at *
    by_cases hfull : min limit rows.length < limit
    · rw [if_pos hfull, if_neg (by omega)]
    · rw [if_neg hfull]
      by_cases hmore : limit < nodeRows.length + edgeRows.length
      · rw [if_pos hmore, if_pos (by omega)]
      · rw [if_neg hmore, if_neg (by omega)]

end

variable (py s f) in
theorem queryTimeline_page {limit : Int} (hlow : 1 ≤ limit) (hhigh : limit ≤ maxTimelineLimit)
    {token : Option String} (h : Names token c) :
    ∃ result, queryTimeline py s f limit token = .ok result ∧
      result.rows = page place limit.toNat c (timelineEntries py s f) ∧
      Names result.nextCursor
        (next place limit.toNat c (timelineEntries py s f)) := by
  obtain ⟨position, hposition, hpast⟩ := names_position py h
  let side (source : Source) : List TopologyTimelineEntry := orderBy place
    (beyond place c (sideEntries py s f source))
  have hside : ∀ source, timelineSide py s f position (limit.toNat + 1) source =
      (side source).take (limit.toNat + 1) := fun source => timelineSide_eq (hpast source) _
  have hsource : ∀ source, ∀ e ∈ side source, e.source = source := fun source e he =>
    sideEntries_source (mem_beyond.mp ((mem_orderBy _).mp he)).1
  have hstrict : ∀ source, (side source).Pairwise fun a b => a.place < b.place := fun source =>
    orderBy_strictly (beyond_nodup sideEntries_nodup)
  have hperm : (side .node ++ side .edge).Perm
      (beyond place c (timelineEntries py s f)) := by
    rw [timelineEntries, beyond, List.filter_append]
    exact (perm_orderBy _ _).append (perm_orderBy _ _)
  have hnodup : ((side .node ++ side .edge).map place).Nodup :=
    (hperm.map _).nodup_iff.mpr (beyond_nodup timelineEntries_nodup)
  have hfetch : limit.toNat ≤ limit.toNat + 1 := Nat.le_succ _
  -- what is fetched of the sides gives the rows of the page
  let fetched (source : Source) := (side source).take (limit.toNat + 1)
  let merged := mergeTimelinePages (fetched .node) (fetched .edge) limit.toNat
  have hmerged : merged = mergeTake place (fetched .node) (fetched .edge)
      limit.toNat :=
    mergeTimelinePages_eq (fun n hn => hsource .node n (List.mem_of_mem_take hn))
      (fun e he => hsource .edge e (List.mem_of_mem_take he)) _
  have hpage : merged =
      page place limit.toNat c (timelineEntries py s f) := by
    rw [hmerged, mergeTake_take hfetch hfetch, mergeTake_eq (hstrict .node) (hstrict .edge) hnodup,
      orderBy_perm hperm hnodup]
    rfl
  have hcut : merged =
      (orderBy place (fetched .node ++ fetched .edge)).take limit.toNat := by
    rw [hmerged]
    refine mergeTake_eq ((hstrict .node).sublist (List.take_sublist _ _))
      ((hstrict .edge).sublist (List.take_sublist _ _)) ?_ _
    exact (((List.take_sublist _ _).append (List.take_sublist _ _)).map _).nodup hnodup
  have hcursor := computeNextCursor_eq (hsource .node) (hsource .edge)
    (perm_orderBy place (fetched .node ++ fetched .edge))
  rw [← hcut] at hcursor
  refine ⟨⟨merged, computeNextCursor (fetched .node) (fetched .edge) merged limit.toNat⟩, ?_, hpage, ?_⟩
  · rw [queryTimeline, if_neg (by omega), hposition]
    simp only [hside]
    rfl
  · show Names (computeNextCursor _ _ merged _) _
    rw [hcursor, hpage, next, ← hperm.length_eq, List.length_append]
    split
    · cases (page place limit.toNat c (timelineEntries py s f)).getLast? with
      | none => exact .inl ⟨rfl, rfl⟩
      | some last => exact .inr ⟨last, rfl, rfl⟩
    · exact .inl ⟨rfl, rfl⟩

end Page

/-! ## The walk -/

section Walk
variable (py : Reader) (stores : Nat → TimelineStore) (f : TimelineFilter) (limits : Nat → Int)

/-- Page `i` of a walk, `none` when the walk was over before it. -/
def timelineWalk : Nat → Option (Except TimelineError TopologyTimelineResult)
  | 0 => some (queryTimeline py (stores 0) f (limits 0) none)
  | i + 1 =>
    match timelineWalk i with
    | some (.ok result) =>
      result.nextCursor.map fun token =>
        queryTimeline py (stores (i + 1)) f (limits (i + 1)) (some token)
    | _ => none

/-- Each row stays, with its id and its timestamp. -/
def RowsStay (s s' : TimelineStore) : Prop :=
  ∀ source, ∀ r ∈ s.side source, ∃ r' ∈ s'.side source,
    r'.historyId = r.historyId ∧ r'.validFrom = r.validFrom

variable {py stores f limits}

theorem RowsStay.trans {a b c : TimelineStore} (hab : RowsStay a b) (hbc : RowsStay b c) :
    RowsStay a c := by
  intro source r hr
  obtain ⟨r', hr', hid, hts⟩ := hab source r hr
  obtain ⟨r'', hr'', hid', hts'⟩ := hbc source r' hr'
  exact ⟨r'', hr'', hid'.trans hid, hts'.trans hts⟩

theorem rowsStay_le (hstay : ∀ i, RowsStay (stores i) (stores (i + 1))) {i j : Nat} (h : i ≤ j) :
    RowsStay (stores i) (stores j) := by
  induction j, h using Nat.le_induction with
  | base => exact fun source r hr => ⟨r, hr, rfl, rfl⟩
  | succ j _ ih => exact ih.trans (hstay j)

/-- The rows that match at page `i`. -/
abbrev entriesAt (py : Reader) (stores : Nat → TimelineStore) (f : TimelineFilter) (i : Nat) :
    List TopologyTimelineEntry := timelineEntries py (stores i) f

variable (py stores f limits) in
theorem timelineWalk_eq (i : Nat) : timelineWalk py stores f limits i =
    walk (fun i => queryTimeline py (stores i) f (limits i)) (·.nextCursor) i := by
  induction i with
  | zero => rfl
  | succ i ih =>
    rw [timelineWalk, walk, ih]
    cases walk (fun i => queryTimeline py (stores i) f (limits i)) (·.nextCursor) i with
    | none => rfl
    | some result => cases result <;> rfl

theorem names_iff {token : Option String} {c : Option Place} : Names token c ↔
    Option.Rel (fun t x => ∃ e : TopologyTimelineEntry,
      t = encodeTimelineCursor e.position ∧ x = e.place) token c := by
  constructor
  · rintro (⟨rfl, rfl⟩ | ⟨e, rfl, rfl⟩)
    · exact .none
    · exact .some ⟨e, rfl, rfl⟩
  · intro h
    cases h with
    | none => exact .inl ⟨rfl, rfl⟩
    | some h =>
      obtain ⟨e, rfl, rfl⟩ := h
      exact .inr ⟨e, rfl, rfl⟩

variable (py stores f) in
theorem timeline_serves (hlimits : ∀ i, 1 ≤ limits i ∧ limits i ≤ maxTimelineLimit) :
    Serves place (fun i => (limits i).toNat) (entriesAt py stores f)
      (fun i => queryTimeline py (stores i) f (limits i)) (·.nextCursor)
      (fun t x => ∃ e : TopologyTimelineEntry,
        t = encodeTimelineCursor e.position ∧ x = e.place) (·.rows) := by
  intro i token c h
  obtain ⟨result, hresult, hrows, hnext⟩ := queryTimeline_page py (stores i) f
    (hlimits i).1 (hlimits i).2 (names_iff.mpr h)
  exact ⟨result, hresult, hrows, names_iff.mp hnext⟩

theorem place_eq_of_ids (hstay : ∀ i, RowsStay (stores i) (stores (i + 1))) {i j : Nat}
    {a b : TopologyTimelineEntry} (ha : a ∈ entriesAt py stores f i) (hb : b ∈ entriesAt py stores f j)
    (hsource : a.source = b.source) (hid : a.historyId = b.historyId) : a.place = b.place := by
  wlog hle : i ≤ j generalizing i j a b
  · exact (this hb ha hsource.symm hid.symm (Nat.le_of_not_le hle)).symm
  obtain ⟨r, hr, -, hra⟩ := mem_timelineEntries.mp ha
  obtain ⟨x, hx, -, hxb⟩ := mem_timelineEntries.mp hb
  obtain ⟨r', hr', hid', hts⟩ := rowsStay_le hstay hle a.source r hr
  have hsame : r' = x := by
    refine List.inj_on_of_nodup_map ((stores j).side_ids b.source) (hsource ▸ hr') hx ?_
    rw [hid']
    exact (congrArg (·.historyId) hra).trans (hid.trans (congrArg (·.historyId) hxb).symm)
  have hfrom : a.validFrom = b.validFrom := by
    rw [← hra, ← hxb, ← hsame]
    exact hts.symm
  rw [place, place, hfrom, hid, hsource]

/-- Entries in strict order hold at most one of an id. -/
theorem filter_id_length {rows : List TopologyTimelineEntry} {source : Source} {id : Nat}
    (hstrict : rows.Pairwise fun a b => a.place < b.place)
    (hsame : ∀ a ∈ rows, ∀ b ∈ rows, a.source = b.source → a.historyId = b.historyId →
      a.place = b.place) :
    (rows.filter fun e => e.source = source ∧ e.historyId = id).length ≤ 1 := by
  have hfilter := hstrict.sublist (List.filter_sublist (p := fun e => e.source = source ∧ e.historyId = id))
  have hmem : ∀ e ∈ rows.filter fun e => e.source = source ∧ e.historyId = id,
      e ∈ rows ∧ e.source = source ∧ e.historyId = id := by
    intro e he
    rw [List.mem_filter, decide_eq_true_eq] at he
    exact he
  cases hrows : rows.filter fun e => e.source = source ∧ e.historyId = id with
  | nil => exact Nat.zero_le 1
  | cons a rest =>
    cases rest with
    | nil => exact Nat.le_refl 1
    | cons b rest =>
      rw [hrows] at hfilter hmem
      obtain ⟨ha, hasource, haid⟩ := hmem a List.mem_cons_self
      obtain ⟨hb, hbsource, hbid⟩ := hmem b (List.mem_cons_of_mem _ List.mem_cons_self)
      have hlt := (List.pairwise_cons.mp hfilter).1 b List.mem_cons_self
      rw [hsame a ha b hb (hasource.trans hbsource.symm) (haid.trans hbid.symm)] at hlt
      exact absurd hlt (lt_irrefl b.place)

end Walk

section Main
variable (py : Reader) (stores : Nat → TimelineStore) (f : TimelineFilter) (limits : Nat → Int)

/-- Decoding a cursor undoes encoding it. Following `next_cursor` from the first page ends.
The rows come newest first, those of a page are rows that match at that moment, and no row
comes twice. A row that was there at the start and matches whenever a page is read comes
exactly once, whatever rows came in between. -/
theorem timeline_visits_once (hlimits : ∀ i, 1 ≤ limits i ∧ limits i ≤ maxTimelineLimit)
    (hstay : ∀ i, RowsStay (stores i) (stores (i + 1))) :
    (∀ p : TimelineCursorPosition,
      decodeTimelineCursor (encodeTimelineCursor p) = .ok p.stampUtc ∧
        (p.ts.val.utcoffset.isSome → p.stampUtc = p)) ∧
    ∃ (n : Nat) (pages : Nat → TopologyTimelineResult),
      (∀ i ≤ n, timelineWalk py stores f limits i = some (.ok (pages i))) ∧
      (pages n).nextCursor = none ∧
      ((List.range (n + 1)).flatMap fun i => (pages i).rows).Pairwise (·.Precedes ·) ∧
      (∀ i ≤ n, ∀ e ∈ (pages i).rows, ∃ r ∈ (stores i).side e.source,
        matching (stores i) f e.source r ∧ rowToTimelineEntry py e.source r = e) ∧
      (∀ source id, (((List.range (n + 1)).flatMap fun i => (pages i).rows).filter fun e =>
        e.source = source ∧ e.historyId = id).length ≤ 1) ∧
      ∀ source, ∀ r ∈ (stores 0).side source,
        (∀ i ≤ n, ∀ r' ∈ (stores i).side source, r'.historyId = r.historyId →
          matching (stores i) f source r') →
        (((List.range (n + 1)).flatMap fun i => (pages i).rows).filter fun e =>
          e.source = source ∧ e.historyId = r.historyId).length = 1 := by
  refine ⟨fun p => ⟨decode_encode p, fun haware => ?_⟩, ?_⟩
  · rw [TimelineCursorPosition.stampUtc, DateTime.stampUtc_aware haware]
  have hkeys : ∀ i, ((entriesAt py stores f i).map place).Nodup :=
    fun i => timelineEntries_nodup
  have hpositive : ∀ i, 0 < (limits i).toNat := fun i => by
    have := (hlimits i).1
    omega
  obtain ⟨n, pages, hwalk, hlast, hrows, hlive, hend⟩ :=
    walk_ends (timeline_serves py stores f hlimits) hkeys
  -- what the pages return is the keyset walk over the entries of each page's own store
  have hreturned : ((List.range (n + 1)).flatMap fun i => (pages i).rows) =
      paged place (fun i => (limits i).toNat) (entriesAt py stores f) (n + 1) :=
    List.flatMap_congr fun i hi => hrows i (Nat.le_of_lt_succ (List.mem_range.mp hi))
  have hstrict := paged_strictly (fun i => (limits i).toNat) hkeys (n + 1)
  have hsame : ∀ a ∈ paged place (fun i => (limits i).toNat)
      (entriesAt py stores f) (n + 1), ∀ b ∈ paged place
        (fun i => (limits i).toNat) (entriesAt py stores f) (n + 1),
      a.source = b.source → a.historyId = b.historyId → a.place = b.place := by
    intro a ha b hb hsource hid
    obtain ⟨i, -, hi⟩ := mem_paged.mp ha
    obtain ⟨j, -, hj⟩ := mem_paged.mp hb
    exact place_eq_of_ids hstay (mem_of_mem_pageAt hi) (mem_of_mem_pageAt hj) hsource hid
  refine ⟨n, pages, fun i hi => (timelineWalk_eq py stores f limits i).trans (hwalk i hi), hlast,
    ?_, ?_, ?_, ?_⟩
  · rw [hreturned]
    exact hstrict.imp precedes_of_place_lt
  · intro i hi e he
    rw [hrows i hi] at he
    exact mem_timelineEntries.mp (mem_of_mem_pageAt he)
  · intro source id
    rw [hreturned]
    exact filter_id_length hstrict hsame
  · intro source r hr hmatch
    rw [hreturned]
    have hid : ∀ i, ∃ r' ∈ (stores i).side source, r'.historyId = r.historyId ∧
        r'.validFrom = r.validFrom := fun i => rowsStay_le hstay (Nat.zero_le i) source r hr
    -- a row that stays and matches has an entry at its place on every page, so the walk meets it
    have hplace : ∀ i ≤ n, ∃ e ∈ entriesAt py stores f i,
        e.place = (rowToTimelineEntry py source r).place := by
      intro i hi
      obtain ⟨r', hr', hid', hts⟩ := hid i
      refine ⟨rowToTimelineEntry py source r',
        mem_timelineEntries.mpr ⟨r', hr', hmatch i hi r' hr' hid', rfl⟩, ?_⟩
      show OrderDual.toDual (toLex (micros r'.validFrom, toLex (r'.historyId, source.rank))) = _
      rw [hid', hts]
      rfl
    obtain ⟨e, he, hplace⟩ := paged_complete hkeys hpositive hlive hend hplace
    obtain ⟨heid, hesource⟩ := place_inj hplace
    have hmem : e ∈ (paged place (fun i => (limits i).toNat)
        (entriesAt py stores f) (n + 1)).filter fun e => e.source = source ∧ e.historyId = r.historyId :=
      List.mem_filter.mpr ⟨he, decide_eq_true ⟨hesource, heid⟩⟩
    exact Nat.le_antisymm (filter_id_length hstrict hsame) (List.length_pos_of_mem hmem)

end Main

/-- A node row and an edge row of one timestamp and one id, and an older node row. -/
def equalKeys : TimelineStore where
  nodeHistory :=
    [⟨7, 0, some 1, .created, .null, none, ⟨⟨2026, 1, 2, 3, 4, 5, 6, some 0⟩, by decide⟩⟩,
      ⟨6, 0, some 2, .created, .null, none, ⟨⟨2025, 12, 31, 0, 0, 0, 0, some 0⟩, by decide⟩⟩]
  edgeHistory :=
    [⟨7, 0, some 3, .created, .null, none, ⟨⟨2026, 1, 2, 3, 4, 5, 6, some 0⟩, by decide⟩⟩]
  nodes := []
  edges := []
  node_ids := by decide
  edge_ids := by decide

theorem timeline_visits_once_equalKeys :
    let py : Reader := ⟨fun _ => none, fun _ => "", fun _ => none, fun _ _ => true⟩
    let f : TimelineFilter := ⟨0, none, none, none⟩
    ∃ (n : Nat) (pages : Nat → TopologyTimelineResult),
      (∀ i ≤ n, timelineWalk py (fun _ => equalKeys) f (fun _ => 1) i = some (.ok (pages i))) ∧
        (pages n).nextCursor = none :=
  let h := timeline_visits_once ⟨fun _ => none, fun _ => "", fun _ => none, fun _ _ => true⟩
    (fun _ => equalKeys) ⟨0, none, none, none⟩ (fun _ => 1) (fun _ => ⟨by decide, by decide⟩)
    (fun _ _ r hr => ⟨r, hr, rfl, rfl⟩)
  let ⟨n, pages, hwalk, hlast, _⟩ := h.2
  ⟨n, pages, hwalk, hlast⟩

end Meho.Topology
