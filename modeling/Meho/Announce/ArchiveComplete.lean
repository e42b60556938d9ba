import Meho.Announce.ArchiveReader

/- A reader of the archive loses no row silently.

Each statement of the reader keeps `ReaderKept` (`readerKept_read`), and so does everybody
else's step; `archive_loses_no_row_silently` reads the three parts off it. -/
namespace Meho.Announce
open Meho.Lib

section Steps
variable {days : Nat} {flt : AnnouncementFilter}

/-! ## The statements of the reader -/

variable {s : Archive} {p : AgentAnnouncement → Bool}

theorem mem_seqs {n : Nat} :
    n ∈ (s.rows.filter p).filterMap (·.seq) ↔ ∃ r ∈ s.rows, p r = true ∧ r.seq = some n := by
  rw [List.mem_filterMap]
  constructor
  · rintro ⟨r, hr, hn⟩
    obtain ⟨hmem, hp⟩ := List.mem_filter.mp hr
    exact ⟨r, hmem, hp, hn⟩
  · rintro ⟨r, hr, hp, hn⟩
    exact ⟨r, List.mem_filter.mpr ⟨hr, hp⟩, hn⟩

theorem minSeq_some {m : Nat} (h : s.minSeq p = some m) :
    ∃ r ∈ s.rows, p r = true ∧ r.seq = some m :=
  mem_seqs.mp (List.min?_eq_some_iff.mp h).1

theorem minSeq_le {r : AgentAnnouncement} (hr : r ∈ s.rows) (hp : p r = true) {n : Nat}
    (hn : r.seq = some n) : ∃ m, s.minSeq p = some m ∧ m ≤ n := by
  have hmem := mem_seqs.mpr ⟨r, hr, hp, hn⟩
  cases hmin : s.minSeq p with
  | none =>
    rw [List.min?_eq_none_iff.mp hmin] at hmem
    cases hmem
  | some m => exact ⟨m, rfl, (List.min?_eq_some_iff.mp hmin).2 n hmem⟩

variable {c : Config Archive ArchiveEvent}

theorem table_of (hlocks : Locks c.state) (hnumbers : Numbers days c) :
    Table c.state.rows := ⟨hlocks.ids, hnumbers.distinct⟩

theorem window_start (hdays : 0 < days) (hnumbers : Numbers days c) {since : Time} {watermark : Nat}
    {first : Option Nat} (hfits : (ReaderAt.firstRead since watermark first).Fits c.state) :
    let after := (first.map fun n => min (n - 1) watermark).getD watermark
    after ≤ watermark ∧
      Window c after since
        (windowGap days c.state.clock since (c.state.minSeq fun _ => true) watermark ≠ none) := by
  intro after
  obtain ⟨hle, hone, hfirst⟩ := hfits
  have hafter : after ≤ watermark := by
    show (first.map fun n => min (n - 1) watermark).getD watermark ≤ watermark
    cases first with
    | none => exact Nat.le_refl _
    | some n => exact Nat.min_le_right _ _
  have hbelow : ∀ m, first = some m → after ≤ m - 1 := by
    rintro m rfl
    exact Nat.min_le_left _ _
  -- a row of the window is not below the start
  have hstart : ∀ r ∈ c.state.rows, ∀ n, r.seq = some n → n ≤ after → r.event.ts < since := by
    intro r hr n hn hnle
    by_contra hts
    obtain ⟨m, hm, hmn⟩ := hfirst r hr n hn (Nat.le_trans hnle hafter) (Int.not_lt.mp hts)
    have := hone m hm
    have := hbelow m hm
    omega
  refine ⟨hafter, Nat.le_trans hafter hle, hstart, fun p n hp hn hnle hts => ?_⟩
  obtain ⟨⟨hpos, -⟩, hgone⟩ := hnumbers.gone p hp n hn
  have hage : ¬ c.state.clock - daysLong days ≤ since := by
    have haged := hnumbers.aged p hp
    intro hyoung
    have hsum : since + daysLong days < c.state.clock :=
      Int.lt_of_le_of_lt (Int.add_le_add_right hts _) haged
    exact Int.not_le.mpr hsum (Int.le_add_of_sub_right_le hyoung)
  have hany : 1 < (c.state.minSeq fun _ => true).getD (watermark + 1) := by
    cases hmin : c.state.minSeq fun _ => true with
    | none =>
      show 1 < watermark + 1
      omega
    | some m =>
      show 1 < m
      obtain ⟨r, hr, -, hm⟩ := minSeq_some hmin
      by_contra hfew
      have hm1 : m = 1 := by
        have := (hnumbers.bounded r hr m hm).1
        omega
      subst hm1
      have hn1 : 1 < n := by
        by_contra hnot
        obtain rfl : n = 1 := by omega
        exact hgone r hr hm
      -- the first row is younger, and in the window: the window starts at it
      have hyounger := hnumbers.younger p hp n hn r hr 1 hm hn1
      obtain ⟨k, hk, hk1⟩ := hfirst r hr 1 hm (by omega)
        (Int.le_of_lt (Int.lt_of_le_of_lt hts hyounger))
      have := hbelow k hk
      omega
  simp only [windowGap]
  rw [if_neg]
  · exact Option.some_ne_none _
  · simp [hany, Nat.ne_of_gt hdays, hage]

/-- The statement keeps what is known of the reader. -/
def KeptBy (days : Nat) (flt : AnnouncementFilter) (c : Config Archive ArchiveEvent) (r : Reading) :
    Prop :=
  ReaderKept flt ⟨(readStep days flt c.state r).1, c.events ++ (readStep days flt c.state r).2⟩

/-- A statement out of its turn does nothing. -/
theorem ReaderKept.idle (h : ReaderKept flt c) : ReaderKept flt ⟨c.state, c.events ++ []⟩ := by
  rw [List.append_nil]
  exact h

theorem kept_open (h : ReaderKept flt c) (since : Time) :
    KeptBy days flt c (.open_ since) := by
  simp only [KeptBy, readStep]
  split
  · rename_i haway
    refine h.goTo trivial (.inl ?_) fun _ hsome => by cases hsome
    rw [haway]
    rfl
  · exact h.idle

theorem kept_watermark (h : ReaderKept flt c) : KeptBy days flt c .watermark := by
  simp only [KeptBy, readStep]
  split
  · rename_i since hopened
    refine h.goTo (Nat.le_refl _) (.inl ?_) fun _ hsome => by cases hsome
    rw [hopened]
    rfl
  · rename_i after seen hscanning
    have hplace := h.place
    rw [hscanning] at hplace
    refine h.goTo ⟨hplace.1, Nat.le_refl _, hplace.2⟩ (.inl ?_) fun hnil hsome => ?_
    · rw [hscanning]
      rfl
    · obtain ⟨pos, gap, hpos, -⟩ := h.begun hnil (by rw [hscanning]; rfl)
      rw [hscanning] at hpos
      cases hpos
  · exact h.idle

theorem kept_first (hnumbers : Numbers days c) (h : ReaderKept flt c) :
    KeptBy days flt c .first := by
  simp only [KeptBy, readStep]
  split
  · rename_i since watermark hmarked
    have hplace := h.place
    rw [hmarked] at hplace
    refine h.goTo ⟨hplace, fun n hn => ?_, fun r hr n hn _ hts => ?_⟩ (.inl ?_)
      fun _ hsome => by cases hsome
    · obtain ⟨r, hr, -, hseq⟩ := minSeq_some hn
      exact (hnumbers.bounded r hr n hseq).1
    · exact minSeq_le hr (decide_eq_true hts) hn
    · rw [hmarked]
      rfl
  · exact h.idle

theorem kept_oldest (hdays : 0 < days) (hnumbers : Numbers days c) (h : ReaderKept flt c) :
    KeptBy days flt c .oldest := by
  simp only [KeptBy, readStep]
  split
  · rename_i since watermark first hread
    have hplace := h.place
    rw [hread] at hplace
    have hnil : answersOf c.events = [] := h.fresh (by rw [hread]; rfl)
    obtain ⟨hafter, hwindow⟩ := window_start hdays hnumbers hplace
    refine h.goTo ⟨hafter, hplace.1⟩ (.inr hnil) fun _ _ => ?_
    exact ⟨_, _, rfl, hwindow⟩
  · exact h.idle

theorem kept_page (htable : Table c.state.rows) (h : ReaderKept flt c) (limit : Nat) :
    KeptBy days flt c (.page limit) := by
  simp only [KeptBy, readStep]
  split
  · rename_i pos gap hpositioned
    split
    · exact h.idle
    · rename_i hlimit
      have hplace := h.place
      rw [hpositioned] at hplace
      obtain ⟨hle, hlast⟩ := hplace
      have hpos : 0 < limit := Nat.pos_of_ne_zero hlimit
      -- without a gap the page holds every number from the position to its end
      obtain ⟨-, hrange, hup, hend⟩ := htable.scan_eq hle hpos
      have hevents := (htable.page_events hle hpos flt c.state.clock (some pos.since) none
        fun _ _ _ _ _ => rfl).1
      refine h.answer (s := (historyPage flt c.state pos gap limit).2)
        ⟨hrange, hevents, ?_, ?_⟩ ?_ ?_ ?_ ?_
      · intro hgap n hlow hn
        have hscan : scanGap pos.afterSeq pos.watermark limit
            (scan c.state.rows pos.afterSeq pos.watermark limit) = none :=
          (Option.or_eq_none_iff.mp hgap).1
        exact htable.all_there hle hpos hscan hlow hn
      · show (matching flt c.state.clock (some pos.since) none _).1.Pairwise _
        rw [hevents]
        exact htable.strictly _ _ _
      · show (if _ then ReaderAt.paging _ else ReaderAt.watching _).Fits c.state
        split
        · exact ⟨hup, hlast⟩
        · exact hlast
      · rw [hpositioned]
        rfl
      · show (if _ then ReaderAt.paging _ else ReaderAt.watching _).position? = _
        split
        · rfl
        · rename_i hshort
          exact congrArg some (hend hshort).symm
      · intro hnil since hsince
        obtain rfl := Option.some.inj hsince
        -- a first page starts where the window was opened
        obtain ⟨pos', gap', hpos', hwindow⟩ := h.begun hnil (by rw [hpositioned]; rfl)
        rw [hpositioned] at hpos'
        obtain ⟨rfl, rfl⟩ := ReaderAt.positioned.inj hpos'
        obtain ⟨hstart, hrows, htold⟩ := hwindow
        refine ⟨hstart, hrows, fun p n hp hn hnle hts hnone => ?_⟩
        exact htold p n hp hn hnle hts (Option.or_eq_none_iff.mp hnone).2
  · exact h.idle

theorem kept_call (h : ReaderKept flt c) : KeptBy days flt c .call := by
  simp only [KeptBy, readStep]
  split
  · rename_i pos hpaging
    have hplace := h.place
    rw [hpaging] at hplace
    refine h.goTo hplace (.inl ?_) fun hnil _ => ?_
    · rw [hpaging]
      rfl
    · obtain ⟨pos', gap', hpos', -⟩ := h.begun hnil (by rw [hpaging]; rfl)
      rw [hpaging] at hpos'
      cases hpos'
  · rename_i after hwatching
    have hplace := h.place
    rw [hwatching] at hplace
    refine h.goTo ⟨hplace, fun id hid => by cases hid⟩ (.inl ?_) fun hnil _ => ?_
    · rw [hwatching]
      rfl
    · obtain ⟨pos', gap', hpos', -⟩ := h.begun hnil (by rw [hwatching]; rfl)
      rw [hwatching] at hpos'
      cases hpos'
  · exact h.idle

theorem any_of_mem_getD {ids : Option (List Nat)} {id : Nat} (h : id ∈ ids.getD []) :
    ids.any (id ∈ ·) = true := by
  cases ids with
  | none => cases h
  | some ids => simpa using h

theorem kept_watch (htable : Table c.state.rows) (hlocks : Locks c.state) (h : ReaderKept flt c)
    (timeUp : Bool) : KeptBy days flt c (.watch timeUp) := by
  simp only [KeptBy, readStep]
  split
  · rename_i after seen watermark hmarked
    have hplace := h.place
    rw [hmarked] at hplace
    obtain ⟨hle, hlast, hseen⟩ := hplace
    have hpos : 0 < watchScanLimit := by decide
    obtain ⟨-, hrange, hup, -⟩ := htable.scan_eq hle hpos
    -- the rows of this range are not those of the ranges before
    have hnew : ∀ r ∈ c.state.rows, ∀ n, r.seq = some n → after < n →
        (some seen).any (r.event.eventId ∈ ·) = false := by
      intro r hr n hn hlow
      rw [Option.any_some, decide_eq_false_iff_not]
      intro hin
      obtain ⟨m, hm, hmle⟩ := (hseen _ hin).2 r hr rfl
      obtain rfl := Option.some.inj (hm.symm.trans hn)
      omega
    obtain ⟨hevents, hmore⟩ :=
      htable.page_events hle hpos flt c.state.clock none (some seen) hnew
    have hbranch : watchScan flt c.state after seen watermark timeUp = _ :=
      if_neg (Nat.not_lt_of_le hle)
    rw [hbranch]
    refine h.answer ⟨hrange, hevents, ?_, ?_⟩ ?_ ?_ ?_ ?_
    · intro hgap n hlow hn
      exact htable.all_there hle hpos hgap hlow hn
    · show (matching flt c.state.clock none (some seen) _).1.Pairwise _
      rw [hevents]
      exact htable.strictly _ _ _
    · show (if _ then ReaderAt.watching _ else ReaderAt.scanning _ _).Fits c.state
      split
      · exact Nat.le_trans hup hlast
      · refine ⟨Nat.le_trans hup hlast, fun id hid => ?_⟩
        rcases hmore id (any_of_mem_getD hid) with hold | ⟨r, hr, rfl⟩
        · obtain ⟨hused, hbelow⟩ := hseen id (by simpa using hold)
          refine ⟨hused, fun r hr hrid => ?_⟩
          obtain ⟨n, hn, hnle⟩ := hbelow r hr hrid
          exact ⟨n, hn, Nat.le_trans hnle hrange⟩
        · obtain ⟨hr, n, hn, -, hnup⟩ := mem_rowsIn.mp hr
          refine ⟨hlocks.used r hr, fun r' hr' heq => ?_⟩
          rw [hlocks.row_unique hr' hr heq]
          exact ⟨n, hn, hnup⟩
    · rw [hmarked]
      rfl
    · show (if _ then ReaderAt.watching _ else ReaderAt.scanning _ _).position? = _
      split <;> rfl
    · intro _ since hsince
      cases hsince
  · exact h.idle

theorem readerKept_read (hdays : 0 < days) (hlocks : Locks c.state) (hnumbers : Numbers days c)
    (h : ReaderKept flt c) (r : Reading) : KeptBy days flt c r := by
  have htable := table_of hlocks hnumbers
  cases r with
  | open_ since => exact kept_open h since
  | watermark => exact kept_watermark h
  | first => exact kept_first hnumbers h
  | oldest => exact kept_oldest hdays hnumbers h
  | page limit => exact kept_page htable h limit
  | call => exact kept_call h
  | watch timeUp => exact kept_watch htable hlocks h timeUp

/-! ## Every run -/

/-- What every run of the archive keeps. -/
structure ArchiveKept (days : Nat) (flt : AnnouncementFilter) (c : Config Archive ArchiveEvent) :
    Prop where
  locks : Locks c.state
  numbers : Numbers days c
  reader : ReaderKept flt c

/-- A step that is not the reader's leaves the reader where it is. -/
theorem reader_of_step (s : Archive) {a : ArchiveAction} (ha : ∀ r, a ≠ .read r) :
    (s.step days flt a).1.reader = s.reader ∧ answersOf (s.step days flt a).2 = [] := by
  cases a with
  | read r => exact absurd rfl (ha r)
  | commitNumbers i =>
    simp only [Archive.step]
    split
    · refine ⟨rfl, ?_⟩
      unfold answersOf
      rw [List.filterMap_map]
      exact List.filterMap_eq_nil_iff.mpr fun _ _ => rfl
    · exact ⟨rfl, rfl⟩
  | prune cutoff =>
    simp only [Archive.step]
    split
    · exact ⟨rfl, rfl⟩
    · refine ⟨rfl, ?_⟩
      unfold answersOf
      rw [List.filterMap_map]
      exact List.filterMap_eq_nil_iff.mpr fun _ _ => rfl
  | tick => exact ⟨rfl, rfl⟩
  | takeNumber | insertUnnumbered | lockRows | giveNumber | rollback =>
    simp only [Archive.step]
    split <;> exact ⟨rfl, rfl⟩
  | publish | lockCounter =>
    simp only [Archive.step]
    split
    · split <;> exact ⟨rfl, rfl⟩
    · exact ⟨rfl, rfl⟩

theorem archiveKept (hdays : 0 < days) (flt : AnnouncementFilter) (acts : List ArchiveAction) :
    ArchiveKept days flt ((archive days flt).after acts) := by
  apply (archive days flt).run_induct (P := ArchiveKept days flt)
  · intro c a h
    have hs : WriterStep days c.state (c.state.step days flt a).1 (c.state.step days flt a).2 :=
      writerStep_step c.state a
    refine ⟨h.locks.step hs, h.numbers.step h.locks hs, ?_⟩
    by_cases ha : ∃ r, a = .read r
    · obtain ⟨r, rfl⟩ := ha
      exact readerKept_read hdays h.locks h.numbers h.reader r
    · obtain ⟨hstays, hquiet⟩ := reader_of_step c.state fun r hr => ha ⟨r, hr⟩
      exact h.reader.others (evolves_step h.locks hs) hstays hquiet
  · refine ⟨locks_start days flt, numbers_start days flt, ⟨?_, trivial, ?_, fun _ => rfl, ?_, ?_⟩⟩
    · intro s hs
      cases hs
    · intro p hp
      cases hp
    · intro _ hsome
      cases hsome
    · intro s since hs
      cases hs

/-- Numbers in order of ranges that are laid end to end. -/
theorem events_strictly {scans : List Scan} (hok : ∀ s ∈ scans, s.Ok flt) {start stop : Nat}
    (h : Tiled start (scans.map Scan.range) stop) :
    (scans.flatMap (·.events)).Pairwise fun a b => a.seq < b.seq := by
  rw [List.pairwise_flatMap]
  refine ⟨fun s hs => (hok s hs).strictly, ?_⟩
  have hapart := List.pairwise_map.mp h.apart
  refine hapart.imp_of_mem fun {s t} hs ht hle a ha b hb => ?_
  have hs' := (hok s hs).inside ha
  have ht' := (hok t ht).inside hb
  have hle' : s.upTo ≤ t.after := hle
  omega

/-- In every run of publishers, older writers, numbering readers and prunes under a positive
retention, with a reader that pages through the history and then watches:

(a) the numbers ever committed are 1 to `last_seq` in the order of the commits, and no two
stored rows have one;
(b) the ranges of the reader's scans are laid end to end from its start to where it stands, each
answer is every stored row of its range that passes, and all answers together are in strict
order of the numbers, so that each row is received once;
(c) a number of a scanned range without its row, and a pruned row of the window below the
start, make a gap. -/
theorem archive_loses_no_row_silently (days : Nat) (hdays : 0 < days) (flt : AnnouncementFilter)
    (acts : List ArchiveAction) :
    let c := (archive days flt).after acts
    let answers := answersOf c.events
    (numbersOf c.events = List.range' 1 c.state.lastSeq ∧
      (c.state.rows.filterMap (·.seq)).Nodup) ∧
    ((∀ stop, c.state.reader.position? = some stop →
        ∃ start, Tiled start (answers.map Scan.range) stop) ∧
      (∀ s ∈ answers, s.events = ((rowsIn s.stored s.after s.upTo).filter
        (passes flt s.now s.since)).map AgentAnnouncement.stored) ∧
      (answers.flatMap (·.events)).Pairwise fun a b => a.seq < b.seq) ∧
    (∀ s ∈ answers, ∀ n, s.after < n → n ≤ s.upTo → (∀ r ∈ s.stored, r.seq ≠ some n) →
      s.gap ≠ none) ∧
    ∀ s since, answers.head? = some s → s.since = some since →
      ∀ p n, .pruned p ∈ c.events → p.seq = some n → n ≤ s.after → since ≤ p.event.ts →
        s.gap ≠ none := by
  intro c answers
  obtain ⟨hlocks, hnumbers, hreader⟩ := archiveKept hdays flt acts
  refine ⟨⟨hnumbers.committed, ?_⟩, ⟨hreader.tiled, fun s hs => (hreader.answers s hs).events, ?_⟩,
    ?_, ?_⟩
  · have hrows : c.state.rows.Nodup := List.Nodup.of_map _ hlocks.ids
    rw [List.Nodup, List.pairwise_filterMap]
    refine hrows.imp_of_mem fun {r r'} hr hr' hne n hn n' hn' heq => hne ?_
    subst heq
    exact hlocks.row_unique hr hr' (hnumbers.distinct r hr r' hr' n hn hn')
  · cases hposition : c.state.reader.position? with
    | none =>
      have hnil : answers = [] := hreader.fresh hposition
      rw [hnil]
      exact List.Pairwise.nil
    | some stop =>
      obtain ⟨start, htiled⟩ := hreader.tiled stop hposition
      exact events_strictly hreader.answers htiled
  · intro s hs n hlow hup hmissing hnone
    obtain ⟨r, hr, hn⟩ := (hreader.answers s hs).gap hnone n hlow hup
    exact hmissing r hr hn
  · intro s since hs hsince p n hp hn hnle hts
    exact (hreader.window s since hs hsince).2.2 p n hp hn hnle hts

end Steps

/-- A start of a run, without a claim. -/
def announcementAt (id : Nat) (ts : Time) : AgentAnnouncementEvent :=
  ⟨id, "agent", "upgrade", none, [], none, none, none, none, none, .start, ts, none, none, none, none⟩

/-- One row is published and pruned after ninety days; a window from before finds nothing and
says so. -/
def prunedWindow : List ArchiveAction :=
  [.takeNumber, .publish 0 (announcementAt 7 5) none, .tick 7776000000010, .prune 6,
    .read (.open_ 0), .read .watermark, .read .first, .read .oldest, .read (.page 10)]

theorem archive_loses_no_row_silently_pruned :
    let c := (archive 90 ⟨none, none, none, none, none, false⟩).after prunedWindow
    numbersOf c.events = [1] ∧ c.state.rows = [] ∧
      ∀ s, (answersOf c.events).head? = some s → s.since = some 0 → s.after = 1 → s.gap ≠ none := by
  intro c
  obtain ⟨⟨hnumbers, -⟩, -, -, hwindow⟩ := archive_loses_no_row_silently 90 (by decide)
    ⟨none, none, none, none, none, false⟩ prunedWindow
  refine ⟨hnumbers.trans (by decide +kernel), by decide +kernel, fun s hs hsince hafter => ?_⟩
  have hp : ArchiveEvent.pruned ⟨announcementAt 7 5, none, none, some 1⟩ ∈ c.events := by
    decide +kernel
  exact hwindow s 0 hs hsince _ 1 hp rfl (Nat.le_of_eq hafter.symm) (by decide)

end Meho.Announce
