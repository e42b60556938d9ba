import Meho.Announce.ArchiveNumbers
import Meho.Lib.Tiles

/- What a reader of the archive receives while everybody writes, numbers and prunes.

`Scan.Ok` is what one scan answers: every stored row of its range that passes, once and in
the order of the numbers, and a gap when a number of the range has no row. The ranges of a
reader's scans are laid end to end (`ReaderKept.tiled`). What is missing below the first
range is the business of the window: no row that is still stored belongs there, and if one
was pruned the first answer has a gap (`Window`).

`Evolves` is all that the proofs need to know of a step of the writers: a number, once
given, stays with its row, and a row only goes by the prune. -/
namespace Meho.Announce
open Meho.Lib

/-! ## Scans -/

variable {r : AgentAnnouncement}

theorem number_of_seq {n : Nat} (h : r.seq = some n) : r.number = n := by
  unfold AgentAnnouncement.number
  rw [h]
  rfl

variable {after upper : Nat}

theorem numberIn_iff :
    r.numberIn after upper = true ↔ ∃ n, r.seq = some n ∧ after < n ∧ n ≤ upper := by
  unfold AgentAnnouncement.numberIn
  rw [Option.any_eq_true]
  simp

variable {rows : List AgentAnnouncement}

theorem mem_rowsIn :
    r ∈ rowsIn rows after upper ↔ r ∈ rows ∧ ∃ n, r.seq = some n ∧ after < n ∧ n ≤ upper := by
  unfold rowsIn
  rw [mem_orderBy, List.mem_filter, numberIn_iff]

/-- Ids and numbers tell the rows of a table apart. -/
structure Table (rows : List AgentAnnouncement) : Prop where
  ids : (rows.map (·.event.eventId)).Nodup
  distinct : ∀ r ∈ rows, ∀ r' ∈ rows, ∀ n, r.seq = some n → r'.seq = some n →
    r.event.eventId = r'.event.eventId

theorem Table.rowsIn_strictly (h : Table rows) (after upper : Nat) :
    (rowsIn rows after upper).Pairwise fun a b => a.number < b.number := by
  apply orderBy_strictly
  have hnodup : (rows.filter (·.numberIn after upper)).Nodup := (List.Nodup.of_map _ h.ids).filter _
  apply List.Nodup.map_on _ hnodup
  intro r hr r' hr' heq
  obtain ⟨hr, hin⟩ := List.mem_filter.mp hr
  obtain ⟨hr', hin'⟩ := List.mem_filter.mp hr'
  obtain ⟨n, hn, -, -⟩ := numberIn_iff.mp hin
  obtain ⟨n', hn', -, -⟩ := numberIn_iff.mp hin'
  obtain rfl : n = n' := by rwa [number_of_seq hn, number_of_seq hn'] at heq
  exact List.inj_on_of_nodup_map h.ids hr hr' (h.distinct r hr r' hr' n hn hn')

variable {limit : Nat}

theorem Table.scan_eq (h : Table rows) (hle : after ≤ upper) (hlimit : 0 < limit) :
    let page := scan rows after upper limit
    let last := scanEnd upper limit page
    page = rowsIn rows after last ∧ after ≤ last ∧ last ≤ upper ∧
      (page.length ≠ limit → last = upper) := by
  intro page last
  by_cases hfull : page.length = limit
  · have hne : page ≠ [] := by
      intro hnil
      rw [hnil] at hfull
      exact Nat.lt_irrefl _ (hfull ▸ hlimit)
    have hlast := List.getLast?_eq_some_getLast hne
    have heq : last = (page.getLast hne).number := by
      show scanEnd upper limit page = _
      unfold scanEnd
      rw [if_pos hfull, hlast]
      rfl
    have hmem : page.getLast hne ∈ rowsIn rows after upper :=
      List.mem_of_mem_take (List.getLast_mem hne)
    obtain ⟨-, n, hn, hlow, hup⟩ := mem_rowsIn.mp hmem
    rw [number_of_seq hn] at heq
    refine ⟨?_, by omega, by omega, fun hnot => absurd hfull hnot⟩
    calc page
        = (rowsIn rows after upper).filter fun r => r.number ≤ (page.getLast hne).number :=
          take_eq_filter (h.rowsIn_strictly after upper) hlast
      _ = rowsIn rows after last := by
          unfold rowsIn
          rw [filter_orderBy, List.filter_filter]
          congr 1
          apply List.filter_congr
          intro r _
          rw [number_of_seq hn, heq]
          rw [Bool.eq_iff_iff, Bool.and_eq_true, decide_eq_true_eq, numberIn_iff, numberIn_iff]
          constructor
          · rintro ⟨hle, m, hm, hlow', -⟩
            rw [number_of_seq hm] at hle
            exact ⟨m, hm, hlow', hle⟩
          · rintro ⟨m, hm, hlow', hup'⟩
            rw [number_of_seq hm]
            exact ⟨hup', m, hm, hlow', Nat.le_trans hup' hup⟩
  · have heq : last = upper := if_neg hfull
    refine ⟨?_, by omega, by omega, fun _ => heq⟩
    rw [heq]
    -- the page is all there is
    have hall : (rowsIn rows after upper).length ≤ limit := by
      by_contra hmore
      apply hfull
      show ((rowsIn rows after upper).take limit).length = limit
      rw [List.length_take]
      omega
    exact List.take_of_length_le hall

theorem Table.all_there (h : Table rows) (hle : after ≤ upper) (hlimit : 0 < limit)
    (hgap : scanGap after upper limit (scan rows after upper limit) = none) {n : Nat}
    (hlow : after < n) (hup : n ≤ scanEnd upper limit (scan rows after upper limit)) :
    ∃ r ∈ rows, r.seq = some n := by
  obtain ⟨hpage, -, -, -⟩ := h.scan_eq hle hlimit
  have hcount : scanEnd upper limit (scan rows after upper limit) ≤
      after + ((scan rows after upper limit).map (·.number)).length := by
    simp only [scanGap] at hgap
    split at hgap
    · rename_i hmissed
      rw [List.length_map]
      omega
    · cases hgap
  have hstrict : (scan rows after upper limit).Pairwise fun a b => a.number < b.number :=
    (h.rowsIn_strictly after upper).sublist (List.take_sublist _ _)
  have hnodup : ((scan rows after upper limit).map (·.number)).Nodup :=
    (List.pairwise_map.mpr hstrict).imp Nat.ne_of_lt
  have hmem := all_present hnodup (fun m hm => ?_) hcount hlow hup
  · obtain ⟨r, hr, rfl⟩ := List.mem_map.mp hmem
    rw [hpage] at hr
    obtain ⟨hr, m, hm, -⟩ := mem_rowsIn.mp hr
    exact ⟨r, hr, by rw [hm, number_of_seq hm]⟩
  · obtain ⟨r, hr, rfl⟩ := List.mem_map.mp hm
    rw [hpage] at hr
    obtain ⟨-, m, hm, hlow', hup'⟩ := mem_rowsIn.mp hr
    rw [number_of_seq hm]
    exact ⟨hlow', hup'⟩

/-- A row as an answer carries it. -/
def AgentAnnouncement.stored (r : AgentAnnouncement) : StoredAnnouncement := ⟨r.number, r.event⟩

theorem matching_fresh (flt : AnnouncementFilter) (now : Time) (since : Option Time)
    (seen : Option (List Nat)) (hids : (rows.map (·.event.eventId)).Nodup)
    (hseen : ∀ r ∈ rows, seen.any (r.event.eventId ∈ ·) = false) :
    (matching flt now since seen rows).1 =
        (rows.filter (passes flt now since)).map AgentAnnouncement.stored ∧
      ∀ id, (matching flt now since seen rows).2.any (id ∈ ·) = true →
        seen.any (id ∈ ·) = true ∨ ∃ r ∈ rows, r.event.eventId = id := by
  induction rows generalizing seen with
  | nil => exact ⟨rfl, fun id hid => .inl hid⟩
  | cons r rows ih =>
    obtain ⟨hnot, hids⟩ := List.nodup_cons.mp hids
    have hrest : ∀ r' ∈ rows, (seen.map (r.event.eventId :: ·)).any (r'.event.eventId ∈ ·) = false := by
      intro r' hr'
      have hne : r'.event.eventId ≠ r.event.eventId := by
        intro heq
        exact hnot (List.mem_map.mpr ⟨r', hr', heq⟩)
      have hold := hseen r' (List.mem_cons_of_mem _ hr')
      cases seen with
      | none => rfl
      | some ids => simpa [hne] using hold
    obtain ⟨hfound, hmore⟩ := ih (seen.map (r.event.eventId :: ·)) hids hrest
    have hhead := hseen r List.mem_cons_self
    simp only [matching, hhead, Bool.false_eq_true, if_false]
    refine ⟨?_, fun id hid => ?_⟩
    · rw [hfound, List.filter_cons]
      by_cases hp : passes flt now since r = true
      · rw [if_pos hp, if_pos hp, List.map_cons]
        rfl
      · rw [if_neg hp, if_neg hp]
    · rcases hmore id hid with hid | ⟨r', hr', rfl⟩
      · cases seen with
        | none => cases hid
        | some ids =>
          have hmem : id ∈ r.event.eventId :: ids := by simpa using hid
          rcases List.mem_cons.mp hmem with rfl | hmem
          · exact .inr ⟨r, List.mem_cons_self, rfl⟩
          · exact .inl (by simpa using hmem)
      · exact .inr ⟨r', List.mem_cons_of_mem _ hr', rfl⟩

/-- The rows of a page that pass, when none of the range was seen. -/
theorem Table.page_events (h : Table rows) (hle : after ≤ upper) (hlimit : 0 < limit)
    (flt : AnnouncementFilter) (now : Time) (since : Option Time) (seen : Option (List Nat))
    (hseen : ∀ r ∈ rows, ∀ n, r.seq = some n → after < n → seen.any (r.event.eventId ∈ ·) = false) :
    let page := scan rows after upper limit
    let range := rowsIn rows after (scanEnd upper limit page)
    (matching flt now since seen page).1 =
        (range.filter (passes flt now since)).map AgentAnnouncement.stored ∧
      ∀ id, (matching flt now since seen page).2.any (id ∈ ·) = true →
        seen.any (id ∈ ·) = true ∨ ∃ r ∈ range, r.event.eventId = id := by
  intro page range
  have hpage : page = range := (h.scan_eq hle hlimit).1
  have hids : (page.map (·.event.eventId)).Nodup := by
    rw [hpage]
    exact ((perm_orderBy _ _).map _).nodup_iff.mpr (h.ids.sublist (List.filter_sublist.map _))
  have hfresh := matching_fresh flt now since seen hids fun r hr => by
    rw [hpage] at hr
    obtain ⟨hr, n, hn, hlow, -⟩ := mem_rowsIn.mp hr
    exact hseen r hr n hn hlow
  rw [← hpage]
  exact hfresh

/-- What a scan answers. -/
structure Scan.Ok (flt : AnnouncementFilter) (s : Scan) : Prop where
  range : s.after ≤ s.upTo
  events : s.events = ((rowsIn s.stored s.after s.upTo).filter
    (passes flt s.now s.since)).map AgentAnnouncement.stored
  gap : s.gap = none → ∀ n, s.after < n → n ≤ s.upTo → ∃ r ∈ s.stored, r.seq = some n
  strictly : s.events.Pairwise fun a b => a.seq < b.seq

def Scan.range (s : Scan) : Nat × Nat := (s.after, s.upTo)

theorem Scan.Ok.inside {flt : AnnouncementFilter} {s : Scan} (h : s.Ok flt)
    {e : StoredAnnouncement} (he : e ∈ s.events) : s.after < e.seq ∧ e.seq ≤ s.upTo := by
  rw [h.events] at he
  obtain ⟨r, hr, rfl⟩ := List.mem_map.mp he
  obtain ⟨-, n, hn, hlow, hup⟩ := mem_rowsIn.mp (List.mem_filter.mp hr).1
  show s.after < r.number ∧ r.number ≤ s.upTo
  rw [number_of_seq hn]
  exact ⟨hlow, hup⟩

theorem Table.strictly (h : Table rows) (after upper : Nat) (p : AgentAnnouncement → Bool) :
    (((rowsIn rows after upper).filter p).map AgentAnnouncement.stored).Pairwise
      fun a b => a.seq < b.seq :=
  List.pairwise_map.mpr ((h.rowsIn_strictly after upper).sublist List.filter_sublist)

/-! ## What a step of the writers leaves -/

section Steps
variable {days : Nat} {flt : AnnouncementFilter}

/-- How the table may change between two statements of a reader. -/
structure Evolves (s s' : Archive) (es : List ArchiveEvent) : Prop where
  last : s.lastSeq ≤ s'.lastSeq
  old : ∀ r ∈ s'.rows, ∀ n, r.seq = some n → n ≤ s.lastSeq → r ∈ s.rows
  /-- A row that has a number stays as it is. -/
  kept : ∀ r ∈ s'.rows, r.event.eventId ∈ s.used →
    ∃ r₀ ∈ s.rows, r₀.event.eventId = r.event.eventId ∧ ∀ n, r₀.seq = some n → r = r₀
  used : ∀ id ∈ s.used, id ∈ s'.used
  pruned : ∀ p, .pruned p ∈ es → p ∈ s.rows

variable {s s' : Archive} {es : List ArchiveEvent}

theorem Evolves.of_rows (hlast : s.lastSeq ≤ s'.lastSeq) (hrows : ∀ r ∈ s'.rows, r ∈ s.rows)
    (hused : ∀ id ∈ s.used, id ∈ s'.used) (hpruned : ∀ p, .pruned p ∈ es → p ∈ s.rows) :
    Evolves s s' es where
  last := hlast
  old r hr _ _ _ := hrows r hr
  kept r hr _ := ⟨r, hrows r hr, rfl, fun _ _ => rfl⟩
  used := hused
  pruned := hpruned

theorem Evolves.insert {row : AgentAnnouncement} (hlast : s.lastSeq ≤ s'.lastSeq)
    (hrows : s'.rows = s.rows ++ [row]) (hused : s'.used = row.event.eventId :: s.used)
    (hid : row.event.eventId ∉ s.used) (hseq : ∀ n, row.seq = some n → s.lastSeq < n)
    (hpruned : ∀ p, .pruned p ∉ es) :
    Evolves s s' es where
  last := hlast
  old r hr n hn hle := by
    rw [hrows] at hr
    rcases List.mem_append.mp hr with hr | hr
    · exact hr
    · rw [List.mem_singleton.mp hr] at hn
      exact absurd (hseq n hn) (Nat.not_lt_of_le hle)
  kept r hr hold := by
    rw [hrows] at hr
    rcases List.mem_append.mp hr with hr | hr
    · exact ⟨r, hr, rfl, fun _ _ => rfl⟩
    · rw [List.mem_singleton.mp hr] at hold
      exact absurd hold hid
  used id h := by
    rw [hused]
    exact List.mem_cons_of_mem _ h
  pruned p hp := absurd hp (hpruned p)

theorem evolves_step (hlocks : Locks s) (hs : WriterStep days s s' es) : Evolves s s' es := by
  have hnone : ∀ p, ArchiveEvent.pruned p ∈ ([] : List ArchiveEvent) → p ∈ s.rows :=
    fun _ hp => by cases hp
  cases hs with
  | idle | takeNumber | lockRows | lockCounter | giveNumber | rollback | tick =>
      exact .of_rows (Nat.le_refl _) (fun _ h => h) (fun _ h => h) hnone
  | read reader answers =>
    refine .of_rows (Nat.le_refl _) (fun _ h => h) (fun _ h => h) fun p hp => ?_
    obtain ⟨_, _, heq⟩ := List.mem_map.mp hp
    cases heq
  | publish hw event key hid =>
    have hn := hlocks.counts _ (List.mem_of_getElem? hw)
    refine .insert (Nat.le_of_lt ?_) rfl rfl hid (fun m hm => ?_) fun p hp =>
      by cases List.mem_singleton.mp hp
    · show s.lastSeq < _
      rw [show _ = s.lastSeq + 1 from hn]
      exact Nat.lt_succ_self _
    · obtain rfl := Option.some.inj hm
      rw [show _ = s.lastSeq + 1 from hn]
      exact Nat.lt_succ_self _
  | insertUnnumbered event key hid =>
    exact .insert (Nat.le_refl _) rfl rfl hid (fun m hm => by cases hm) fun p hp => by cases hp
  | @commitNumbers i last given hw =>
    have hin := List.mem_of_getElem? hw
    obtain ⟨hcount, hnumbers⟩ := hlocks.counts _ hin
    refine ⟨?_, ?_, ?_, fun _ h => h, ?_⟩
    · show s.lastSeq ≤ last
      omega
    · intro r hr n hn hle
      obtain ⟨r₀, hr₀, rfl⟩ := List.mem_map.mp hr
      by_cases hgiven : r₀.event.eventId ∈ given.map Prod.fst
      · -- a number given by this transaction is above the last
        exfalso
        have hfound : (Archive.numberRow given r₀).seq = some n := hn
        unfold Archive.numberRow at hfound
        split at hfound
        · rename_i pair hpair
          obtain rfl := Option.some.inj hfound
          have hmem : pair.2 ∈ given.map Prod.snd :=
            List.mem_map.mpr ⟨pair, List.mem_of_find?_eq_some hpair, rfl⟩
          rw [hnumbers, List.mem_range'_1] at hmem
          omega
        · rename_i hno
          obtain ⟨pair, hpair, heq⟩ := List.mem_map.mp hgiven
          have := List.find?_eq_none.mp hno pair hpair
          simp [heq] at this
      · rw [Archive.numberRow_of_not_mem hgiven]
        exact hr₀
    · intro r hr _
      obtain ⟨r₀, hr₀, rfl⟩ := List.mem_map.mp hr
      refine ⟨r₀, hr₀, by rw [Archive.numberRow_id], fun n hn => ?_⟩
      apply Archive.numberRow_of_not_mem
      intro hgiven
      exact hlocks.not_locked hr₀ hn hin (List.mem_append_left _ hgiven)
    · intro p hp
      obtain ⟨_, _, heq⟩ := List.mem_map.mp hp
      cases heq
  | prune =>
    refine .of_rows (Nat.le_refl _) (fun r hr => (List.mem_filter.mp hr).1) (fun _ h => h) fun p hp => ?_
    obtain ⟨r, hr, heq⟩ := List.mem_map.mp hp
    obtain rfl := ArchiveEvent.pruned.inj heq
    exact (List.mem_filter.mp hr).1

/-! ## Where the reader stands -/

/-- The ids seen in a call are of rows below the next range. -/
def SeenBelow (s : Archive) (seen : List Nat) (after : Nat) : Prop :=
  ∀ id ∈ seen, id ∈ s.used ∧
    ∀ r ∈ s.rows, r.event.eventId = id → ∃ n, r.seq = some n ∧ n ≤ after

/-- What a place of the reader knows of the archive. -/
def ReaderAt.Fits (s : Archive) : ReaderAt → Prop
  | .away | .opened _ => True
  | .marked _ watermark => watermark ≤ s.lastSeq
  | .firstRead since watermark first => watermark ≤ s.lastSeq ∧ (∀ n, first = some n → 1 ≤ n) ∧
    ∀ r ∈ s.rows, ∀ n, r.seq = some n → n ≤ watermark → since ≤ r.event.ts →
      ∃ m, first = some m ∧ m ≤ n
  | .positioned pos _ | .paging pos => pos.afterSeq ≤ pos.watermark ∧ pos.watermark ≤ s.lastSeq
  | .watching after => after ≤ s.lastSeq
  | .scanning after seen => after ≤ s.lastSeq ∧ SeenBelow s seen after
  | .watchMarked after seen watermark =>
    after ≤ watermark ∧ watermark ≤ s.lastSeq ∧ SeenBelow s seen after

/-- Where its next range begins. -/
def ReaderAt.position? : ReaderAt → Option Nat
  | .positioned pos _ | .paging pos => some pos.afterSeq
  | .watching after | .scanning after _ | .watchMarked after _ _ => some after
  | _ => none

theorem SeenBelow.mono (h : Evolves s s' es) {seen : List Nat} {after : Nat}
    (hseen : SeenBelow s seen after) : SeenBelow s' seen after := by
  intro id hid
  obtain ⟨hused, hbelow⟩ := hseen id hid
  refine ⟨h.used id hused, fun r hr hrid => ?_⟩
  subst hrid
  obtain ⟨r₀, hr₀, heq, hsame⟩ := h.kept r hr hused
  obtain ⟨n, hn, hle⟩ := hbelow r₀ hr₀ heq
  rw [hsame n hn]
  exact ⟨n, hn, hle⟩

theorem ReaderAt.Fits.mono (h : Evolves s s' es) {p : ReaderAt} (hp : p.Fits s) : p.Fits s' := by
  have hlast := h.last
  cases p with
  | away => trivial
  | opened => trivial
  | marked | watching => exact Nat.le_trans hp hlast
  | firstRead since watermark first =>
    obtain ⟨hle, hone, hfirst⟩ := hp
    refine ⟨Nat.le_trans hle hlast, hone, fun r hr n hn hnle => ?_⟩
    exact hfirst r (h.old r hr n hn (Nat.le_trans hnle hle)) n hn hnle
  | positioned | paging => exact ⟨hp.1, Nat.le_trans hp.2 hlast⟩
  | scanning => exact ⟨Nat.le_trans hp.1 hlast, hp.2.mono h⟩
  | watchMarked => exact ⟨hp.1, Nat.le_trans hp.2.1 hlast, hp.2.2.mono h⟩

/-- Below `start` no row is stored that belongs to the window, and if one was pruned there the
answer says so. -/
def Window (c : Config Archive ArchiveEvent) (start : Nat) (since : Time) (told : Prop) : Prop :=
  start ≤ c.state.lastSeq ∧
    (∀ r ∈ c.state.rows, ∀ n, r.seq = some n → n ≤ start → r.event.ts < since) ∧
    ∀ p n, .pruned p ∈ c.events → p.seq = some n → n ≤ start → since ≤ p.event.ts → told

variable {c : Config Archive ArchiveEvent}

theorem Window.mono (h : Evolves c.state s' es) {start : Nat} {since : Time} {told : Prop}
    (hw : Window c start since told) : Window ⟨s', c.events ++ es⟩ start since told := by
  obtain ⟨hle, hrows, htold⟩ := hw
  refine ⟨Nat.le_trans hle h.last, fun r hr n hn hnle => ?_, fun p n hp hn hnle hts => ?_⟩
  · exact hrows r (h.old r hr n hn (Nat.le_trans hnle hle)) n hn hnle
  · rcases List.mem_append.mp hp with hp | hp
    · exact htold p n hp hn hnle hts
    · exact absurd (hrows p (h.pruned p hp) n hn hnle) (Int.not_lt.mpr hts)

/-- What every run keeps for its reader. -/
structure ReaderKept (flt : AnnouncementFilter) (c : Config Archive ArchiveEvent) : Prop where
  answers : ∀ s ∈ answersOf c.events, s.Ok flt
  place : c.state.reader.Fits c.state
  tiled : ∀ p, c.state.reader.position? = some p →
    ∃ start, Tiled start ((answersOf c.events).map Scan.range) p
  fresh : c.state.reader.position? = none → answersOf c.events = []
  /-- Only a page that is about to be scanned can be the first. -/
  begun : answersOf c.events = [] → c.state.reader.position?.isSome = true →
    ∃ pos gap, c.state.reader = .positioned pos gap ∧
      Window c pos.afterSeq pos.since (gap ≠ none)
  window : ∀ s since, (answersOf c.events).head? = some s → s.since = some since →
    Window c s.after since (s.gap ≠ none)

theorem answersOf_append (xs ys : List ArchiveEvent) :
    answersOf (xs ++ ys) = answersOf xs ++ answersOf ys := List.filterMap_append

theorem ReaderKept.others (h : ReaderKept flt c) (he : Evolves c.state s' es)
    (hreader : s'.reader = c.state.reader) (hes : answersOf es = []) :
    ReaderKept flt ⟨s', c.events ++ es⟩ := by
  have hanswers : answersOf (c.events ++ es) = answersOf c.events := by
    rw [answersOf_append, hes, List.append_nil]
  constructor
  · show ∀ s ∈ answersOf (c.events ++ es), _
    rw [hanswers]
    exact h.answers
  · show s'.reader.Fits s'
    rw [hreader]
    exact h.place.mono he
  · show ∀ p, s'.reader.position? = some p → _
    rw [hreader, hanswers]
    exact h.tiled
  · show s'.reader.position? = none → _
    rw [hreader, hanswers]
    exact h.fresh
  · show answersOf (c.events ++ es) = [] → s'.reader.position?.isSome = true → _
    rw [hreader, hanswers]
    intro hnil hsome
    obtain ⟨pos, gap, hpos, hwindow⟩ := h.begun hnil hsome
    exact ⟨pos, gap, hpos, hwindow.mono he⟩
  · show ∀ s since, (answersOf (c.events ++ es)).head? = some s → _
    rw [hanswers]
    exact fun s since hs hsince => (h.window s since hs hsince).mono he

theorem ReaderKept.goTo (h : ReaderKept flt c) {place : ReaderAt} (hfits : place.Fits c.state)
    (hposition : place.position? = c.state.reader.position? ∨ answersOf c.events = [])
    (hbegun : answersOf c.events = [] → place.position?.isSome = true →
      ∃ pos gap, place = .positioned pos gap ∧ Window c pos.afterSeq pos.since (gap ≠ none)) :
    ReaderKept flt ⟨{ c.state with reader := place }, c.events ++ []⟩ := by
  have hlike : place.Fits { c.state with reader := place } := by
    cases place <;> exact hfits
  rw [List.append_nil]
  constructor
  · exact h.answers
  · exact hlike
  · intro p hp
    rcases hposition with hsame | hnil
    · exact h.tiled p (hsame.symm.trans hp)
    · exact ⟨p, by rw [hnil]; rfl⟩
  · intro hp
    rcases hposition with hsame | hnil
    · exact h.fresh (hsame.symm.trans hp)
    · exact hnil
  · exact hbegun
  · exact h.window

theorem ReaderKept.answer (h : ReaderKept flt c) {place : ReaderAt} {s : Scan} (hok : s.Ok flt)
    (hfits : place.Fits c.state) (hat : c.state.reader.position? = some s.after)
    (hposition : place.position? = some s.upTo)
    (hwindow : answersOf c.events = [] → ∀ since, s.since = some since →
      Window c s.after since (s.gap ≠ none)) :
    ReaderKept flt ⟨{ c.state with reader := place }, c.events ++ [.answered s]⟩ := by
  have hanswers : answersOf (c.events ++ [.answered s]) = answersOf c.events ++ [s] := by
    rw [answersOf_append]
    rfl
  have hlike : place.Fits { c.state with reader := place } := by
    cases place <;> exact hfits
  -- an answer is neither a prune nor a commit
  have hkeep : ∀ {start since told}, Window c start since told →
      Window ⟨{ c.state with reader := place }, c.events ++ [.answered s]⟩ start since told := by
    rintro start since told ⟨hle, hrows, htold⟩
    refine ⟨hle, hrows, fun p n hp => ?_⟩
    rcases List.mem_append.mp hp with hp | hp
    · exact htold p n hp
    · cases List.mem_singleton.mp hp
  constructor
  · show ∀ s' ∈ answersOf (c.events ++ [.answered s]), _
    rw [hanswers]
    intro s' hs'
    rcases List.mem_append.mp hs' with hs' | hs'
    · exact h.answers s' hs'
    · rw [List.mem_singleton.mp hs']
      exact hok
  · exact hlike
  · intro p hp
    obtain rfl : s.upTo = p := Option.some.inj (hposition.symm.trans hp)
    obtain ⟨start, htiled⟩ := h.tiled _ hat
    refine ⟨start, ?_⟩
    show Tiled start ((answersOf (c.events ++ [.answered s])).map Scan.range) s.upTo
    rw [hanswers, List.map_append]
    exact htiled.snoc hok.range
  · intro hp
    rw [show place.position? = none from hp] at hposition
    cases hposition
  · show answersOf (c.events ++ [.answered s]) = [] → _
    rw [hanswers]
    intro hnil
    simp at hnil
  · show ∀ s' since, (answersOf (c.events ++ [.answered s])).head? = some s' → _
    rw [hanswers]
    intro s' since hs' hsince
    cases hold : answersOf c.events with
    | nil =>
      rw [hold] at hs'
      obtain rfl := Option.some.inj hs'
      exact hkeep (hwindow hold since hsince)
    | cons t ts =>
      rw [hold] at hs'
      obtain rfl := Option.some.inj hs'
      exact hkeep (h.window t since (by rw [hold]; rfl) hsince)

end Steps
end Meho.Announce
