import Meho.Announce.Archive

/- The numbers of the archive: whatever the writers do, the numbers committed are 1, 2, 3 and so
on in the order of the commits, no two rows have one, and a number that no row has any more
was pruned with its row.

`WriterStep` says once what a step does to the archive. `Locks` is what the transactions
that are open hold: one has the counter, and counts on from it; the rows that are locked
are there, without a number, and each is locked by one. `Numbers` is about what is
committed, and is proved from `Locks` step by step. -/
namespace Meho.Announce
open Meho.Lib

/-- The number that an event committed. -/
def ArchiveEvent.number? : ArchiveEvent → Option Nat
  | .committed n => some n
  | _ => none

def ArchiveEvent.scan? : ArchiveEvent → Option Scan
  | .answered scan => some scan
  | _ => none

/-- The numbers committed so far, in order. -/
def numbersOf (events : List ArchiveEvent) : List Nat := events.filterMap ArchiveEvent.number?

/-- The reader's answers so far, in order. -/
def answersOf (events : List ArchiveEvent) : List Scan := events.filterMap ArchiveEvent.scan?

/-! ## What a step does -/

section Steps
variable {days : Nat} {flt : AnnouncementFilter}

/-- A step of the writers or the clock, with what it needs; a step of the reader changes its own
place only. -/
inductive WriterStep (days : Nat) (s : Archive) : Archive → List ArchiveEvent → Prop where
  | idle : WriterStep days s s []
  | takeNumber (hfree : s.counterFree = true) :
    WriterStep days s { s with writers := s.writers ++ [.numbered (s.lastSeq + 1)] } []
  | publish {i n : Nat} (h : s.writers[i]? = some (.numbered n)) (event : AgentAnnouncementEvent)
      (key : Option String) (hid : event.eventId ∉ s.used) :
    WriterStep days s
      { s.goto i .over with
        lastSeq := n
        rows := s.rows ++ [⟨event, key, none, some n⟩]
        used := event.eventId :: s.used } [.committed n]
  | insertUnnumbered (event : AgentAnnouncementEvent) (key : Option String)
      (hid : event.eventId ∉ s.used) :
    WriterStep days s
      { s with
        rows := s.rows ++ [⟨event, key, none, none⟩]
        used := event.eventId :: s.used } []
  | lockRows (seen : List Nat) (hfree : ∀ id ∈ s.unnumbered seen, id ∉ s.lockedIds) :
    WriterStep days s { s with writers := s.writers ++ [.locked (s.unnumbered seen)] } []
  | lockCounter {i : Nat} {ids : List Nat} (h : s.writers[i]? = some (.locked ids))
      (hfree : s.counterFree = true) :
    WriterStep days s (s.goto i (.numbering [] ids s.lastSeq)) []
  | giveNumber {i id last : Nat} {given : List (Nat × Nat)} {rest : List Nat}
      (h : s.writers[i]? = some (.numbering given (id :: rest) last)) :
    WriterStep days s (s.goto i (.numbering (given ++ [(id, last + 1)]) rest (last + 1))) []
  | commitNumbers {i last : Nat} {given : List (Nat × Nat)}
      (h : s.writers[i]? = some (.numbering given [] last)) :
    WriterStep days s
      { s.goto i .over with lastSeq := last, rows := s.rows.map (Archive.numberRow given) }
      (given.map fun pair => .committed pair.2)
  | rollback {i : Nat} {w : Writer} (h : s.writers[i]? = some w) :
    WriterStep days s (s.goto i .over) []
  | prune {cutoff : Time} (hage : cutoff + daysLong days ≤ s.clock)
      (hfree : ∀ r ∈ s.rows, r.event.ts < cutoff → r.event.eventId ∉ s.lockedIds) :
    WriterStep days s { s with rows := s.rows.filter fun r => ¬ r.event.ts < cutoff }
      ((s.rows.filter (·.event.ts < cutoff)).map ArchiveEvent.pruned)
  | read (reader : ReaderAt) (answers : List Scan) :
    WriterStep days s { s with reader } (answers.map ArchiveEvent.answered)
  | tick (time : Nat) : WriterStep days s { s with clock := s.clock + time } []

theorem writerStep_readStep (s : Archive) (r : Reading) :
    WriterStep days s (readStep days flt s r).1 (readStep days flt s r).2 := by
  cases r with
  | open_ since | first | oldest =>
    simp only [readStep]
    split
    · exact .read _ []
    · exact .idle
  | watermark | call =>
    simp only [readStep]
    split
    · exact .read _ []
    · exact .read _ []
    · exact .idle
  | page limit =>
    simp only [readStep]
    split
    · split
      · exact .idle
      · exact .read _ [_]
    · exact .idle
  | watch timeUp =>
    simp only [readStep]
    split
    · exact .read _ [_]
    · exact .idle

theorem writerStep_step (s : Archive) (a : ArchiveAction) :
    WriterStep days s (s.step days flt a).1 (s.step days flt a).2 := by
  cases a with
  | takeNumber =>
    simp only [Archive.step]
    split
    · rename_i hfree
      exact .takeNumber hfree
    · exact .idle
  | publish i event key =>
    simp only [Archive.step]
    split
    · rename_i h
      split
      · exact .idle
      · rename_i hid
        exact .publish h event key hid
    · exact .idle
  | insertUnnumbered event key =>
    simp only [Archive.step]
    split
    · exact .idle
    · rename_i hid
      exact .insertUnnumbered event key hid
  | lockRows seen =>
    simp only [Archive.step]
    split
    · exact .idle
    · rename_i h
      apply WriterStep.lockRows
      intro id hid hlocked
      exact h (.inr (List.any_eq_true.mpr ⟨id, hid, decide_eq_true hlocked⟩))
  | lockCounter i =>
    simp only [Archive.step]
    split
    · rename_i h
      split
      · rename_i hfree
        exact .lockCounter h hfree
      · exact .idle
    · exact .idle
  | giveNumber i =>
    simp only [Archive.step]
    split
    · rename_i h
      exact .giveNumber h
    · exact .idle
  | commitNumbers i =>
    simp only [Archive.step]
    split
    · rename_i h
      exact .commitNumbers h
    · exact .idle
  | rollback i =>
    simp only [Archive.step]
    split
    · rename_i h
      exact .rollback h
    · exact .idle
  | prune cutoff =>
    simp only [Archive.step]
    split
    · exact .idle
    · rename_i h
      rw [not_or] at h
      -- a row that is old and locked would have stopped the delete
      refine .prune (Int.not_lt.mp h.1) fun r hr hold hlocked => h.2 ?_
      have hmem : r ∈ s.rows.filter (·.event.ts < cutoff) :=
        List.mem_filter.mpr ⟨hr, decide_eq_true hold⟩
      exact List.any_eq_true.mpr ⟨r, hmem, decide_eq_true hlocked⟩
  | read r => exact writerStep_readStep s r
  | tick time => exact .tick time

/-! ## Locks -/

/-- What a transaction that holds the counter counts on from. -/
def Writer.CountsFrom (lastSeq : Nat) : Writer → Prop
  | .numbered n => n = lastSeq + 1
  | .numbering given _ last =>
    last = lastSeq + given.length ∧ given.map Prod.snd = List.range' (lastSeq + 1) given.length
  | _ => True

variable {w : Writer}

theorem Writer.countsFrom_of_free (h : w.holdsCounter = false) (n : Nat) : w.CountsFrom n := by
  cases w with
  | numbered => cases h
  | numbering => cases h
  | _ => trivial

/-- One transaction at a time has the counter. -/
def OneHolder (s : Archive) : Prop :=
  ∀ (i j : Nat) (w w' : Writer), s.writers[i]? = some w → s.writers[j]? = some w' →
    w.holdsCounter = true → w'.holdsCounter = true → i = j

/-- What the row locks and the counter lock of the writers give. -/
structure Locks (s : Archive) : Prop where
  one : OneHolder s
  counts : ∀ w ∈ s.writers, w.CountsFrom s.lastSeq
  rows : ∀ w ∈ s.writers, ∀ id ∈ w.lockedIds, ∃ r ∈ s.rows, r.event.eventId = id ∧ r.seq = none
  nodup : s.lockedIds.Nodup
  ids : (s.rows.map (·.event.eventId)).Nodup
  used : ∀ r ∈ s.rows, r.event.eventId ∈ s.used

variable {s : Archive}

theorem mem_lockedIds (hw : w ∈ s.writers) {id : Nat} (hid : id ∈ w.lockedIds) :
    id ∈ s.lockedIds := List.mem_flatMap.mpr ⟨w, hw, hid⟩

theorem counterFree_iff : s.counterFree = true ↔ ∀ w ∈ s.writers, w.holdsCounter = false := by
  unfold Archive.counterFree
  rw [Bool.not_eq_true', List.any_eq_false]
  exact ⟨fun h w hw => Bool.eq_false_iff.mpr (h w hw), fun h w hw => Bool.eq_false_iff.mp (h w hw)⟩

variable {r : AgentAnnouncement}

theorem Locks.row_unique (h : Locks s) {r' : AgentAnnouncement} (hr : r ∈ s.rows)
    (hr' : r' ∈ s.rows) (heq : r.event.eventId = r'.event.eventId) : r = r' :=
  List.inj_on_of_nodup_map h.ids hr hr' heq

variable {n : Nat}

theorem Locks.not_locked (h : Locks s) (hr : r ∈ s.rows) (hn : r.seq = some n) (hw : w ∈ s.writers) :
    r.event.eventId ∉ w.lockedIds := by
  intro hid
  obtain ⟨r', hr', hid', hnone⟩ := h.rows w hw _ hid
  rw [h.row_unique hr' hr hid', hn] at hnone
  cases hnone

variable {i : Nat}

theorem flatMap_set_nodup {α β : Type} (f : α → List β) {xs : List α} {a b : α}
    (hi : xs[i]? = some a) (h : (xs.flatMap f).Nodup) (hsub : (f b).Sublist (f a)) :
    ((xs.set i b).flatMap f).Nodup := by
  induction xs generalizing i with
  | nil => cases hi
  | cons x xs ih =>
    rw [List.flatMap_cons] at h
    cases i with
    | zero =>
      obtain rfl : x = a := Option.some.inj hi
      rw [List.set_cons_zero, List.flatMap_cons]
      exact h.sublist (hsub.append_right _)
    | succ i =>
      obtain ⟨hx, hxs, hdisjoint⟩ := List.nodup_append.mp h
      rw [List.set_cons_succ, List.flatMap_cons]
      refine List.nodup_append.mpr ⟨hx, ih (i := i) hi hxs, fun y hy z hz => ?_⟩
      obtain ⟨c, hc, hzc⟩ := List.mem_flatMap.mp hz
      rcases List.mem_or_eq_of_mem_set hc with hmem | rfl
      · exact hdisjoint y hy z (List.mem_flatMap.mpr ⟨c, hmem, hzc⟩)
      · exact hdisjoint y hy z
          (List.mem_flatMap.mpr ⟨a, List.mem_of_getElem? (i := i) hi, hsub.mem hzc⟩)

theorem mem_goto {w' : Writer} (h : w' ∈ (s.goto i w).writers) :
    w' ∈ s.writers ∨ w' = w := List.mem_or_eq_of_mem_set h

theorem one_goto (h : OneHolder s) {new : Writer} (hw : s.writers[i]? = some w)
    (hnew : new.holdsCounter = true → w.holdsCounter = true ∨ s.counterFree = true) :
    OneHolder (s.goto i new) := by
  have hat : ∀ {j : Nat} {v : Writer}, (s.goto i new).writers[j]? = some v → j = i ∧ v = new ∨
      j ≠ i ∧ s.writers[j]? = some v := by
    intro j v hv
    by_cases hj : j = i
    · subst hj
      have := Parties.moveOne_at hw new
      exact .inl ⟨rfl, Option.some.inj (hv.symm.trans this)⟩
    · have := Parties.moveOne_other s.writers (Ne.symm hj) new
      exact .inr ⟨hj, this.symm.trans hv⟩
  -- another holder would have held it before
  have hother : ∀ {j : Nat} {v : Writer}, j ≠ i → s.writers[j]? = some v → v.holdsCounter = true →
      new.holdsCounter = true → False := by
    intro j v hj hv hholds hnewHolds
    rcases hnew hnewHolds with hold | hfree
    · exact hj (h j i v w hv hw hholds hold)
    · rw [counterFree_iff.mp hfree v (List.mem_of_getElem? hv)] at hholds
      cases hholds
  intro j k v v' hv hv' hholds hholds'
  rcases hat hv with ⟨rfl, rfl⟩ | ⟨hj, hold⟩ <;> rcases hat hv' with ⟨rfl, rfl⟩ | ⟨hk, hold'⟩
  · rfl
  · exact (hother hk hold' hholds' hholds).elim
  · exact (hother hj hold hholds hholds').elim
  · exact h j k v v' hold hold' hholds hholds'

theorem Archive.mem_unnumbered {seen : List Nat} {id : Nat} (h : id ∈ s.unnumbered seen) :
    ∃ r ∈ s.rows, r.event.eventId = id ∧ r.seq = none := by
  obtain ⟨r, hr, rfl⟩ := List.mem_map.mp h
  obtain ⟨hmem, hcond⟩ := List.mem_filter.mp ((mem_orderBy _).mp hr)
  exact ⟨r, hmem, rfl, (of_decide_eq_true hcond).1⟩

theorem Archive.unnumbered_nodup (h : (s.rows.map (·.event.eventId)).Nodup) (seen : List Nat) :
    (s.unnumbered seen).Nodup := by
  unfold Archive.unnumbered
  have hperm := perm_orderBy (fun r : AgentAnnouncement => toLex (r.event.ts, r.event.eventId))
    (s.rows.filter fun r => r.seq = none ∧ r.event.eventId ∈ seen)
  exact (hperm.map _).nodup_iff.mpr (h.sublist (List.filter_sublist.map _))

/-- A transaction of a place that locks no more than before, and the same rows. -/
theorem Locks.goto (h : Locks s) {new : Writer} (hw : s.writers[i]? = some w)
    (hsub : new.lockedIds.Sublist w.lockedIds)
    (hholds : new.holdsCounter = true → w.holdsCounter = true ∨ s.counterFree = true)
    (hcounts : new.CountsFrom s.lastSeq) : Locks (s.goto i new) where
  one := one_goto h.one hw hholds
  counts v hv := by
    rcases mem_goto hv with hv | rfl
    · exact h.counts v hv
    · exact hcounts
  rows v hv id hid := by
    rcases mem_goto hv with hv | rfl
    · exact h.rows v hv id hid
    · exact h.rows w (List.mem_of_getElem? hw) id (hsub.mem hid)
  nodup := flatMap_set_nodup Writer.lockedIds hw h.nodup hsub
  ids := h.ids
  used := h.used

theorem Locks.counts_commit (h : Locks s) (hw : s.writers[i]? = some w)
    (hholds : w.holdsCounter = true) (n : Nat) :
    ∀ v ∈ (s.goto i .over).writers, v.CountsFrom n := by
  intro v hv
  obtain ⟨j, hj⟩ := List.mem_iff_getElem?.mp hv
  by_cases hji : j = i
  · subst hji
    have := Parties.moveOne_at hw .over
    obtain rfl := Option.some.inj (hj.symm.trans this)
    trivial
  · have hother := Parties.moveOne_other s.writers (Ne.symm hji) .over
    have hj' : s.writers[j]? = some v := hother.symm.trans hj
    apply Writer.countsFrom_of_free
    by_contra hv'
    exact hji (h.one j i v w hj' hw (Bool.eq_true_of_not_eq_false hv') hholds)

theorem Archive.numberRow_id (given : List (Nat × Nat)) (r : AgentAnnouncement) :
    (Archive.numberRow given r).event = r.event := by
  unfold Archive.numberRow
  split <;> rfl

variable {given : List (Nat × Nat)}

theorem Archive.numberRow_of_not_mem (h : r.event.eventId ∉ given.map Prod.fst) :
    Archive.numberRow given r = r := by
  unfold Archive.numberRow
  split
  · rename_i pair hpair
    have hkey : pair.1 = r.event.eventId := by simpa using List.find?_some hpair
    exact absurd (List.mem_map.mpr ⟨pair, List.mem_of_find?_eq_some hpair, hkey⟩) h
  · rfl

theorem Archive.numberRow_of_mem (hnodup : (given.map Prod.fst).Nodup)
    (h : (r.event.eventId, n) ∈ given) : (Archive.numberRow given r).seq = some n := by
  unfold Archive.numberRow
  split
  · rename_i pair hpair
    have hkey : pair.1 = r.event.eventId := by simpa using List.find?_some hpair
    have heq := List.inj_on_of_nodup_map hnodup (List.mem_of_find?_eq_some hpair) h hkey
    rw [heq]
  · rename_i hnone
    have hne := List.find?_eq_none.mp hnone _ h
    simp at hne

theorem Locks.insert (h : Locks s) (row : AgentAnnouncement) (hid : row.event.eventId ∉ s.used) :
    ((s.rows ++ [row]).map (·.event.eventId)).Nodup ∧
      ∀ r ∈ s.rows ++ [row], r.event.eventId ∈ row.event.eventId :: s.used := by
  constructor
  · rw [List.map_append]
    refine List.nodup_append.mpr ⟨h.ids, List.nodup_singleton _, fun x hx y hy => ?_⟩
    obtain ⟨r, hr, rfl⟩ := List.mem_map.mp hx
    rw [List.mem_singleton.mp hy]
    intro heq
    have hused := h.used r hr
    rw [heq] at hused
    exact hid hused
  · intro r hr
    rcases List.mem_append.mp hr with hr | hr
    · exact List.mem_cons_of_mem _ (h.used r hr)
    · rw [List.mem_singleton.mp hr]
      exact List.mem_cons_self

/-- A transaction that begins holds the counter only if it was free. -/
theorem one_join (h : OneHolder s) {new : Writer}
    (hnew : new.holdsCounter = true → s.counterFree = true) :
    OneHolder { s with writers := s.writers ++ [new] } := by
  have hat : ∀ {k : Nat} {v : Writer}, (s.writers ++ [new])[k]? = some v → v.holdsCounter = true →
      s.writers[k]? = some v ∨ k = s.writers.length ∧ s.counterFree = true := by
    intro k v hk hv
    rcases Nat.lt_or_ge k s.writers.length with hlt | hge
    · rw [List.getElem?_append_left hlt] at hk
      exact .inl hk
    · rw [List.getElem?_append_right hge] at hk
      have hzero : k - s.writers.length = 0 := by
        by_contra hne
        rw [List.getElem?_eq_none (by simp; omega)] at hk
        cases hk
      obtain rfl := List.mem_singleton.mp (List.mem_of_getElem? hk)
      exact .inr ⟨by omega, hnew hv⟩
  have hfree : ∀ {k : Nat} {v : Writer}, s.counterFree = true → s.writers[k]? = some v →
      v.holdsCounter = true → False := by
    intro k v hfree hk hv
    rw [counterFree_iff.mp hfree v (List.mem_of_getElem? hk)] at hv
    cases hv
  intro i j w w' hi hj hw hw'
  rcases hat hi hw with hi | ⟨rfl, hnone⟩ <;> rcases hat hj hw' with hj | ⟨rfl, hnone'⟩
  · exact h i j w w' hi hj hw hw'
  · exact (hfree hnone' hi hw).elim
  · exact (hfree hnone hj hw').elim
  · rfl

/-- A transaction begins, with locks on rows without numbers that nobody else has locked. -/
theorem Locks.join (h : Locks s) {new : Writer}
    (hholds : new.holdsCounter = true → s.counterFree = true) (hcounts : new.CountsFrom s.lastSeq)
    (hrows : ∀ id ∈ new.lockedIds, ∃ r ∈ s.rows, r.event.eventId = id ∧ r.seq = none)
    (hnodup : new.lockedIds.Nodup) (hother : ∀ id ∈ new.lockedIds, id ∉ s.lockedIds) :
    Locks { s with writers := s.writers ++ [new] } where
  one := one_join h.one hholds
  counts w hw := by
    rcases List.mem_append.mp hw with hw | hw
    · exact h.counts w hw
    · rw [List.mem_singleton.mp hw]
      exact hcounts
  rows w hw id hid := by
    rcases List.mem_append.mp hw with hw | hw
    · exact h.rows w hw id hid
    · rw [List.mem_singleton.mp hw] at hid
      exact hrows id hid
  nodup := by
    show ((s.writers ++ [new]).flatMap Writer.lockedIds).Nodup
    rw [List.flatMap_append, List.flatMap_singleton]
    refine List.nodup_append.mpr ⟨h.nodup, hnodup, ?_⟩
    rintro x hx y hy rfl
    exact hother x hy hx
  ids := h.ids
  used := h.used

theorem Locks.publish (h : Locks s) (hw : s.writers[i]? = some (.numbered n))
    (event : AgentAnnouncementEvent) (key : Option String) (hid : event.eventId ∉ s.used) :
    Locks { s.goto i .over with
      lastSeq := n
      rows := s.rows ++ [⟨event, key, none, some n⟩]
      used := event.eventId :: s.used } where
  one := one_goto h.one hw fun hover => by cases hover
  counts := h.counts_commit hw rfl n
  rows w hw' id hid' := by
    rcases mem_goto hw' with hw' | rfl
    · obtain ⟨r, hr, hrid, hnone⟩ := h.rows w hw' id hid'
      exact ⟨r, List.mem_append_left _ hr, hrid, hnone⟩
    · cases hid'
  nodup := flatMap_set_nodup Writer.lockedIds hw h.nodup (List.Sublist.refl _)
  ids := (h.insert ⟨event, key, none, some n⟩ hid).1
  used := (h.insert ⟨event, key, none, some n⟩ hid).2

theorem Locks.insertUnnumbered (h : Locks s) (event : AgentAnnouncementEvent)
    (key : Option String) (hid : event.eventId ∉ s.used) :
    Locks { s with
      rows := s.rows ++ [⟨event, key, none, none⟩]
      used := event.eventId :: s.used } where
  one := h.one
  counts := h.counts
  rows w hw id hid' := by
    obtain ⟨r, hr, hrid, hnone⟩ := h.rows w hw id hid'
    exact ⟨r, List.mem_append_left _ hr, hrid, hnone⟩
  nodup := h.nodup
  ids := (h.insert ⟨event, key, none, none⟩ hid).1
  used := (h.insert ⟨event, key, none, none⟩ hid).2

theorem Locks.giveNumber (h : Locks s) {id last : Nat} {rest : List Nat}
    (hw : s.writers[i]? = some (.numbering given (id :: rest) last)) :
    Locks (s.goto i (.numbering (given ++ [(id, last + 1)]) rest (last + 1))) := by
  obtain ⟨hlast, hnumbers⟩ := h.counts _ (List.mem_of_getElem? hw)
  refine h.goto hw ?_ (fun _ => .inl rfl) ⟨?_, ?_⟩
  · show (List.map Prod.fst (given ++ [(id, last + 1)]) ++ rest).Sublist _
    rw [List.map_append, List.append_assoc]
    exact List.Sublist.refl _
  · rw [List.length_append, hlast]
    rfl
  · rw [List.map_append, hnumbers, List.length_append, List.length_singleton, List.range'_concat]
    simp
    omega

/-- Two transactions have no lock in common. -/
theorem Locks.apart (h : Locks s) {j : Nat} {w' : Writer} (hij : i ≠ j)
    (hi : s.writers[i]? = some w) (hj : s.writers[j]? = some w') {id : Nat}
    (hid : id ∈ w.lockedIds) : id ∉ w'.lockedIds := by
  intro hid'
  have hpair := List.pairwise_iff_getElem.mp (List.nodup_flatMap.mp h.nodup).2
  obtain ⟨hilt, higet⟩ := List.getElem?_eq_some_iff.mp hi
  obtain ⟨hjlt, hjget⟩ := List.getElem?_eq_some_iff.mp hj
  rcases Nat.lt_or_gt_of_ne hij with hlt | hgt
  · have hdisjoint := hpair i j hilt hjlt hlt
    rw [higet, hjget] at hdisjoint
    exact hdisjoint hid hid'
  · have hdisjoint := hpair j i hjlt hilt hgt
    rw [higet, hjget] at hdisjoint
    exact hdisjoint hid' hid

theorem Locks.commitNumbers (h : Locks s) {last : Nat}
    (hw : s.writers[i]? = some (.numbering given [] last)) :
    Locks { s.goto i .over with
      lastSeq := last
      rows := s.rows.map (Archive.numberRow given) } where
  one := one_goto h.one hw fun hover => by cases hover
  counts := h.counts_commit hw rfl last
  rows w hw' id hid := by
    -- the rows of the others are not among those given
    have hother : id ∉ given.map Prod.fst := by
      intro hgiven
      obtain ⟨j, hj⟩ := List.mem_iff_getElem?.mp hw'
      have hij : i ≠ j := by
        rintro rfl
        have hover := Parties.moveOne_at hw .over
        obtain rfl := Option.some.inj (hj.symm.trans hover)
        cases hid
      have hj' : s.writers[j]? = some w :=
        (Parties.moveOne_other s.writers hij .over).symm.trans hj
      exact h.apart hij hw hj' (List.mem_append_left _ hgiven) hid
    rcases mem_goto hw' with hw' | rfl
    · obtain ⟨r, hr, rfl, hnone⟩ := h.rows w hw' id hid
      refine ⟨r, ?_, rfl, hnone⟩
      exact List.mem_map.mpr ⟨r, hr, Archive.numberRow_of_not_mem hother⟩
    · cases hid
  nodup := flatMap_set_nodup Writer.lockedIds hw h.nodup (List.nil_sublist _)
  ids := by
    have hids : (s.rows.map (Archive.numberRow given)).map (·.event.eventId) =
        s.rows.map (·.event.eventId) := by
      rw [List.map_map]
      exact List.map_congr_left fun r _ => congrArg _ (Archive.numberRow_id given r)
    show ((s.rows.map (Archive.numberRow given)).map (·.event.eventId)).Nodup
    rw [hids]
    exact h.ids
  used r hr := by
    obtain ⟨r₀, hr₀, rfl⟩ := List.mem_map.mp hr
    rw [Archive.numberRow_id]
    exact h.used r₀ hr₀

theorem Locks.prune (h : Locks s) {cutoff : Time}
    (hfree : ∀ r ∈ s.rows, r.event.ts < cutoff → r.event.eventId ∉ s.lockedIds) :
    Locks { s with rows := s.rows.filter fun r => ¬ r.event.ts < cutoff } where
  one := h.one
  counts := h.counts
  rows w hw id hid := by
    obtain ⟨r, hr, rfl, hnone⟩ := h.rows w hw id hid
    refine ⟨r, List.mem_filter.mpr ⟨hr, ?_⟩, rfl, hnone⟩
    rw [decide_eq_true_eq]
    exact fun hold => hfree r hr hold (mem_lockedIds hw hid)
  nodup := h.nodup
  ids := h.ids.sublist (List.filter_sublist.map _)
  used r hr := h.used r (List.mem_filter.mp hr).1

variable {s' : Archive} {es : List ArchiveEvent}

theorem Locks.step (h : Locks s) (hs : WriterStep days s s' es) : Locks s' := by
  cases hs with
  | idle => exact h
  | read | tick => exact ⟨h.one, h.counts, h.rows, h.nodup, h.ids, h.used⟩
  | takeNumber hfree => exact h.join (fun _ => hfree) rfl nofun List.nodup_nil nofun
  | publish hw event key hid => exact h.publish hw event key hid
  | insertUnnumbered event key hid => exact h.insertUnnumbered event key hid
  | lockRows seen hfree =>
    exact h.join nofun trivial (fun _ => Archive.mem_unnumbered)
      (Archive.unnumbered_nodup h.ids seen) hfree
  | lockCounter hw hfree =>
    exact h.goto hw (List.Sublist.refl _) (fun _ => .inr hfree) ⟨rfl, rfl⟩
  | giveNumber hw => exact h.giveNumber hw
  | commitNumbers hw => exact h.commitNumbers hw
  | rollback hw => exact h.goto hw (List.nil_sublist _) (fun hover => by cases hover) trivial
  | prune hage hfree => exact h.prune hfree

/-! ## Numbers -/

/-- What is committed, and what is gone. -/
structure Numbers (days : Nat) (c : Config Archive ArchiveEvent) : Prop where
  committed : numbersOf c.events = List.range' 1 c.state.lastSeq
  distinct : ∀ r ∈ c.state.rows, ∀ r' ∈ c.state.rows, ∀ n, r.seq = some n → r'.seq = some n →
    r.event.eventId = r'.event.eventId
  bounded : ∀ r ∈ c.state.rows, ∀ n, r.seq = some n → 1 ≤ n ∧ n ≤ c.state.lastSeq
  /-- A number that was given has its row, or its row was pruned. -/
  account : ∀ n, 1 ≤ n → n ≤ c.state.lastSeq →
    (∃ r ∈ c.state.rows, r.seq = some n) ∨ ∃ r, .pruned r ∈ c.events ∧ r.seq = some n
  gone : ∀ p, .pruned p ∈ c.events → ∀ n, p.seq = some n →
    (1 ≤ n ∧ n ≤ c.state.lastSeq) ∧ ∀ r ∈ c.state.rows, r.seq ≠ some n
  /-- A row that was there and survived the prune is younger. -/
  younger : ∀ p, .pruned p ∈ c.events → ∀ n, p.seq = some n →
    ∀ r ∈ c.state.rows, ∀ m, r.seq = some m → m < n → p.event.ts < r.event.ts
  aged : ∀ p, .pruned p ∈ c.events → p.event.ts + daysLong days < c.state.clock

theorem numbersOf_append (xs ys : List ArchiveEvent) :
    numbersOf (xs ++ ys) = numbersOf xs ++ numbersOf ys := List.filterMap_append

variable {c : Config Archive ArchiveEvent}

section
variable (h : Numbers days c)
include h

theorem Numbers.gone_lt {p : AgentAnnouncement} (hp : .pruned p ∈ c.events) (hn : p.seq = some n) :
    n < c.state.lastSeq + 1 := Nat.lt_succ_of_le (h.gone p hp n hn).1.2

theorem Numbers.publish (hn : n = c.state.lastSeq + 1) (event : AgentAnnouncementEvent)
    (key : Option String) (hrows : s'.rows = c.state.rows ++ [⟨event, key, none, some n⟩])
    (hlast : s'.lastSeq = n) (hclock : s'.clock = c.state.clock) :
    Numbers days ⟨s', c.events ++ [.committed n]⟩ := by
  have hrow : ∀ {r}, r ∈ s'.rows → r ∈ c.state.rows ∨ r = ⟨event, key, none, some n⟩ := by
    intro r hr
    rw [hrows] at hr
    exact (List.mem_append.mp hr).imp_right List.mem_singleton.mp
  -- nothing is pruned by this commit, so the facts about pruned rows carry over
  have hpruned : ∀ {p}, .pruned p ∈ c.events ++ [.committed n] → .pruned p ∈ c.events := by
    intro p hp
    rcases List.mem_append.mp hp with hp | hp
    · exact hp
    · cases List.mem_singleton.mp hp
  constructor
  · show numbersOf (c.events ++ _) = List.range' 1 s'.lastSeq
    rw [numbersOf_append, h.committed, hlast, hn, List.range'_concat]
    simp [numbersOf, ArchiveEvent.number?, Nat.add_comm]
  · intro r hr r' hr' m hm hm'
    rcases hrow hr with hr | rfl <;> rcases hrow hr' with hr' | rfl
    · exact h.distinct r hr r' hr' m hm hm'
    · obtain rfl := Option.some.inj hm'
      have := (h.bounded r hr _ hm).2
      omega
    · obtain rfl := Option.some.inj hm
      have := (h.bounded r' hr' _ hm').2
      omega
    · rfl
  · intro r hr m hm
    show 1 ≤ m ∧ m ≤ s'.lastSeq
    rcases hrow hr with hr | rfl
    · have := h.bounded r hr m hm
      omega
    · obtain rfl := Option.some.inj hm
      omega
  · intro m h1 hm
    change m ≤ s'.lastSeq at hm
    -- the new number is accounted for by the new row
    by_cases hmn : m = n
    · refine .inl ⟨⟨event, key, none, some n⟩, ?_, congrArg some hmn.symm⟩
      show _ ∈ s'.rows
      rw [hrows]
      exact List.mem_append_right _ List.mem_cons_self
    · rcases h.account m h1 (by omega) with ⟨r, hr, hseq⟩ | ⟨r, hr, hseq⟩
      · refine .inl ⟨r, ?_, hseq⟩
        show _ ∈ s'.rows
        rw [hrows]
        exact List.mem_append_left _ hr
      · exact .inr ⟨r, List.mem_append_left _ hr, hseq⟩
  · intro p hp m hm
    have hlt := h.gone_lt (hpruned hp) hm
    have hone := (h.gone p (hpruned hp) m hm).1.1
    refine ⟨by show 1 ≤ m ∧ m ≤ s'.lastSeq; omega, fun r hr => ?_⟩
    rcases hrow hr with hr | rfl
    · exact (h.gone p (hpruned hp) m hm).2 r hr
    · intro heq
      obtain rfl := Option.some.inj heq
      omega
  · intro p hp m hm r hr k hk hkm
    have hlt := h.gone_lt (hpruned hp) hm
    rcases hrow hr with hr | rfl
    · exact h.younger p (hpruned hp) m hm r hr k hk hkm
    · obtain rfl := Option.some.inj hk
      omega
  · intro p hp
    show _ < s'.clock
    rw [hclock]
    exact h.aged p (hpruned hp)

theorem Numbers.mono (hnumbers : numbersOf es = []) (hpruned : ∀ p, .pruned p ∉ es)
    (hlast : s'.lastSeq = c.state.lastSeq) (hclock : c.state.clock ≤ s'.clock)
    (hrows : ∀ r ∈ s'.rows, r ∈ c.state.rows ∨ r.seq = none)
    (hkept : ∀ r ∈ c.state.rows, r ∈ s'.rows) : Numbers days ⟨s', c.events ++ es⟩ := by
  have hrow : ∀ {r n}, r ∈ s'.rows → r.seq = some n → r ∈ c.state.rows := by
    intro r n hr hn
    rcases hrows r hr with hr | hnone
    · exact hr
    · rw [hnone] at hn
      cases hn
  have hold : ∀ {p}, .pruned p ∈ c.events ++ es → .pruned p ∈ c.events := fun hp =>
    (List.mem_append.mp hp).resolve_right (hpruned _)
  constructor
  · show numbersOf (c.events ++ es) = List.range' 1 s'.lastSeq
    rw [numbersOf_append, hnumbers, List.append_nil, hlast]
    exact h.committed
  · exact fun r hr r' hr' n hn hn' => h.distinct r (hrow hr hn) r' (hrow hr' hn') n hn hn'
  · intro r hr n hn
    show _ ∧ n ≤ s'.lastSeq
    rw [hlast]
    exact h.bounded r (hrow hr hn) n hn
  · intro n h1 hn
    change n ≤ s'.lastSeq at hn
    rw [hlast] at hn
    rcases h.account n h1 hn with ⟨r, hr, hseq⟩ | ⟨r, hr, hseq⟩
    · exact .inl ⟨r, hkept r hr, hseq⟩
    · exact .inr ⟨r, List.mem_append_left _ hr, hseq⟩
  · intro p hp n hn
    show (1 ≤ n ∧ n ≤ s'.lastSeq) ∧ _
    rw [hlast]
    obtain ⟨hle, hno⟩ := h.gone p (hold hp) n hn
    exact ⟨hle, fun r hr hr' => hno r (hrow hr hr') hr'⟩
  · exact fun p hp n hn r hr m hm => h.younger p (hold hp) n hn r (hrow hr hm) m hm
  · exact fun p hp => Int.lt_of_lt_of_le (h.aged p (hold hp)) hclock

/-- The rows that a transaction numbered: theirs are the numbers after the last. -/
theorem Numbers.commitNumbers (hlocks : Locks c.state) {last : Nat}
    (hw : c.state.writers[i]? = some (.numbering given [] last))
    (hrows : s'.rows = c.state.rows.map (Archive.numberRow given)) (hlast : s'.lastSeq = last)
    (hclock : s'.clock = c.state.clock) :
    Numbers days ⟨s', c.events ++ given.map fun pair => .committed pair.2⟩ := by
  have hin := List.mem_of_getElem? hw
  obtain ⟨hcount, hnumbers⟩ := hlocks.counts _ hin
  have hkeys : (given.map Prod.fst).Nodup := by
    have hsub : (given.map Prod.fst ++ []).Sublist c.state.lockedIds :=
      List.sublist_flatten_of_mem (List.mem_map.mpr ⟨_, hin, rfl⟩)
    rw [List.append_nil] at hsub
    exact hlocks.nodup.sublist hsub
  have hnodup : (given.map Prod.snd).Nodup := hnumbers ▸ List.nodup_range' 
  have hmem : ∀ {n}, n ∈ given.map Prod.snd ↔ c.state.lastSeq < n ∧ n ≤ last := by
    intro n
    rw [hnumbers, List.mem_range'_1, hcount]
    omega
  -- a numbered row is an old one, or it is among those given
  have hrow : ∀ {r n}, r ∈ s'.rows → r.seq = some n →
      (∃ r₀ ∈ c.state.rows, r = r₀ ∧ r₀.seq = some n) ∨
        (r.event.eventId, n) ∈ given ∧ ∃ r₀ ∈ c.state.rows, r.event = r₀.event := by
    intro r n hr hn
    rw [hrows] at hr
    obtain ⟨r₀, hr₀, rfl⟩ := List.mem_map.mp hr
    by_cases hgiven : r₀.event.eventId ∈ given.map Prod.fst
    · obtain ⟨⟨id, m⟩, hpair, rfl⟩ := List.mem_map.mp hgiven
      have hseq := Archive.numberRow_of_mem hkeys (r := r₀) hpair
      obtain rfl := Option.some.inj (hseq.symm.trans hn)
      refine .inr ⟨?_, r₀, hr₀, Archive.numberRow_id given r₀⟩
      rw [Archive.numberRow_id]
      exact hpair
    · rw [Archive.numberRow_of_not_mem hgiven] at hn ⊢
      exact .inl ⟨r₀, hr₀, rfl, hn⟩
  have hnew : ∀ {id n}, (id, n) ∈ given → c.state.lastSeq < n ∧ n ≤ last := fun hpair =>
    hmem.mp (List.mem_map.mpr ⟨_, hpair, rfl⟩)
  have hkept : ∀ {r n}, r ∈ c.state.rows → r.seq = some n → r ∈ s'.rows := by
    intro r n hr hn
    have hnot := hlocks.not_locked hr hn hin
    rw [hrows]
    refine List.mem_map.mpr ⟨r, hr, Archive.numberRow_of_not_mem fun hgiven => ?_⟩
    exact hnot (List.mem_append_left _ hgiven)
  have hpruned : ∀ {p}, .pruned p ∈ (c.events ++ given.map fun pair => .committed pair.2) →
      .pruned p ∈ c.events := by
    intro p hp
    rcases List.mem_append.mp hp with hp | hp
    · exact hp
    · obtain ⟨_, _, heq⟩ := List.mem_map.mp hp
      cases heq
  constructor
  · show numbersOf (c.events ++ _) = List.range' 1 s'.lastSeq
    have hevents : numbersOf (given.map fun pair => .committed pair.2) = given.map Prod.snd := by
      unfold numbersOf
      rw [List.filterMap_map]
      exact congrFun (List.filterMap_eq_map (f := Prod.snd)) given
    rw [numbersOf_append, hevents, h.committed, hnumbers, hlast, hcount, Nat.add_comm c.state.lastSeq 1,
      List.range'_append_1]
  · intro r hr r' hr' n hn hn'
    rcases hrow hr hn with ⟨r₀, hr₀, rfl, hseq⟩ | ⟨hpair, -⟩ <;>
      rcases hrow hr' hn' with ⟨r₁, hr₁, rfl, hseq'⟩ | ⟨hpair', -⟩
    · exact h.distinct _ hr₀ _ hr₁ n hseq hseq'
    · have := (h.bounded _ hr₀ n hseq).2
      have := (hnew hpair').1
      omega
    · have := (h.bounded _ hr₁ n hseq').2
      have := (hnew hpair).1
      omega
    · have heq := List.inj_on_of_nodup_map hnodup hpair hpair' rfl
      exact congrArg Prod.fst heq
  · intro r hr n hn
    show 1 ≤ n ∧ n ≤ s'.lastSeq
    rcases hrow hr hn with ⟨r₀, hr₀, rfl, hseq⟩ | ⟨hpair, -⟩
    · have := h.bounded _ hr₀ n hseq
      omega
    · have := hnew hpair
      omega
  · intro n h1 hn
    change n ≤ s'.lastSeq at hn
    by_cases hold : n ≤ c.state.lastSeq
    · rcases h.account n h1 hold with ⟨r, hr, hseq⟩ | ⟨r, hr, hseq⟩
      · exact .inl ⟨r, hkept hr hseq, hseq⟩
      · exact .inr ⟨r, List.mem_append_left _ hr, hseq⟩
    · obtain ⟨⟨id, m⟩, hpair, rfl⟩ := List.mem_map.mp (hmem.mpr ⟨Nat.lt_of_not_le hold, hlast ▸ hn⟩)
      have hlocked : id ∈ Writer.lockedIds (.numbering given [] last) :=
        List.mem_append_left _ (List.mem_map.mpr ⟨_, hpair, rfl⟩)
      obtain ⟨r, hr, rfl, -⟩ := hlocks.rows _ hin id hlocked
      refine .inl ⟨Archive.numberRow given r, ?_, Archive.numberRow_of_mem hkeys hpair⟩
      show _ ∈ s'.rows
      rw [hrows]
      exact List.mem_map.mpr ⟨r, hr, rfl⟩
  · intro p hp n hn
    have hlt := h.gone_lt (hpruned hp) hn
    have hone := (h.gone p (hpruned hp) n hn).1.1
    refine ⟨by show 1 ≤ n ∧ n ≤ s'.lastSeq; omega, fun r hr hr' => ?_⟩
    rcases hrow hr hr' with ⟨r₀, hr₀, rfl, hseq⟩ | ⟨hpair, -⟩
    · exact (h.gone p (hpruned hp) n hn).2 _ hr₀ hseq
    · have := (hnew hpair).1
      omega
  · intro p hp n hn r hr m hm hmn
    have hlt := h.gone_lt (hpruned hp) hn
    rcases hrow hr hm with ⟨r₀, hr₀, rfl, hseq⟩ | ⟨hpair, -⟩
    · exact h.younger p (hpruned hp) n hn _ hr₀ m hseq hmn
    · have := (hnew hpair).1
      omega
  · intro p hp
    show _ < s'.clock
    rw [hclock]
    exact h.aged p (hpruned hp)

theorem Numbers.prune (hlocks : Locks c.state) {cutoff : Time}
    (hage : cutoff + daysLong days ≤ c.state.clock) :
    Numbers days
      ⟨{ c.state with rows := c.state.rows.filter fun r => ¬ r.event.ts < cutoff },
        c.events ++ (c.state.rows.filter (·.event.ts < cutoff)).map ArchiveEvent.pruned⟩ := by
  have hrow : ∀ {r}, r ∈ (c.state.rows.filter fun r => ¬ r.event.ts < cutoff) ↔
      r ∈ c.state.rows ∧ cutoff ≤ r.event.ts := by
    intro r
    rw [List.mem_filter, decide_eq_true_eq, Int.not_lt]
  have hpruned : ∀ {p}, .pruned p ∈ (c.events ++
      (c.state.rows.filter (·.event.ts < cutoff)).map ArchiveEvent.pruned) →
      .pruned p ∈ c.events ∨ p ∈ c.state.rows ∧ p.event.ts < cutoff := by
    intro p hp
    rcases List.mem_append.mp hp with hp | hp
    · exact .inl hp
    · obtain ⟨r, hr, heq⟩ := List.mem_map.mp hp
      obtain rfl := ArchiveEvent.pruned.inj heq
      obtain ⟨hmem, hold⟩ := List.mem_filter.mp hr
      exact .inr ⟨hmem, of_decide_eq_true hold⟩
  constructor
  · show numbersOf (c.events ++ _) = _
    have hevents : numbersOf ((c.state.rows.filter (·.event.ts < cutoff)).map ArchiveEvent.pruned) =
        [] := by
      unfold numbersOf
      rw [List.filterMap_map]
      exact List.filterMap_eq_nil_iff.mpr fun _ _ => rfl
    rw [numbersOf_append, hevents, List.append_nil]
    exact h.committed
  · exact fun r hr r' hr' => h.distinct r (hrow.mp hr).1 r' (hrow.mp hr').1
  · exact fun r hr => h.bounded r (hrow.mp hr).1
  · intro n h1 hn
    rcases h.account n h1 hn with ⟨r, hr, hseq⟩ | ⟨r, hr, hseq⟩
    -- a number whose row goes is accounted for by the event of the prune
    · by_cases hold : r.event.ts < cutoff
      · refine .inr ⟨r, List.mem_append_right _ (List.mem_map.mpr ⟨r, ?_, rfl⟩), hseq⟩
        exact List.mem_filter.mpr ⟨hr, decide_eq_true hold⟩
      · exact .inl ⟨r, hrow.mpr ⟨hr, Int.not_lt.mp hold⟩, hseq⟩
    · exact .inr ⟨r, List.mem_append_left _ hr, hseq⟩
  · intro p hp n hn
    rcases hpruned hp with hp | ⟨hp, hold⟩
    · obtain ⟨hle, hno⟩ := h.gone p hp n hn
      exact ⟨hle, fun r hr => hno r (hrow.mp hr).1⟩
    · refine ⟨h.bounded p hp n hn, fun r hr hseq => ?_⟩
      obtain ⟨hr, hyoung⟩ := hrow.mp hr
      -- the row that was pruned had the number alone
      obtain rfl := hlocks.row_unique hp hr (h.distinct p hp r hr n hn hseq)
      exact Int.not_le.mpr hold hyoung
  · intro p hp n hn r hr m hm hmn
    obtain ⟨hr, hyoung⟩ := hrow.mp hr
    rcases hpruned hp with hp | ⟨hp, hold⟩
    · exact h.younger p hp n hn r hr m hm hmn
    · exact Int.lt_of_lt_of_le hold hyoung
  · intro p hp
    show _ < c.state.clock
    rcases hpruned hp with hp | ⟨hp, hold⟩
    · exact h.aged p hp
    · exact Int.lt_of_lt_of_le (Int.add_lt_add_right hold _) hage

theorem Numbers.step (hlocks : Locks c.state) (hs : WriterStep days c.state s' es) :
    Numbers days ⟨s', c.events ++ es⟩ := by
  have hsame : ∀ r ∈ c.state.rows, r ∈ c.state.rows ∨ r.seq = none := fun _ hr => .inl hr
  cases hs with
  | idle => exact h.mono rfl (fun _ hp => by cases hp) rfl (Int.le_refl _) hsame fun _ hr => hr
  | takeNumber | lockRows | lockCounter | giveNumber | rollback =>
    exact h.mono rfl (fun _ hp => by cases hp) rfl (Int.le_refl _) hsame fun _ hr => hr
  | publish hw event key =>
    exact h.publish (hlocks.counts _ (List.mem_of_getElem? hw)) event key rfl rfl rfl
  | insertUnnumbered event key =>
    refine h.mono rfl (fun _ hp => by cases hp) rfl (Int.le_refl _) (fun r hr => ?_)
      fun _ hr => List.mem_append_left _ hr
    rcases List.mem_append.mp hr with hr | hr
    · exact .inl hr
    · rw [List.mem_singleton.mp hr]
      exact .inr rfl
  | commitNumbers hw => exact h.commitNumbers hlocks hw rfl rfl rfl
  | prune hage => exact h.prune hlocks hage
  | read reader answers =>
    refine h.mono ?_ ?_ rfl (Int.le_refl _) hsame fun _ hr => hr
    · unfold numbersOf
      rw [List.filterMap_map]
      exact List.filterMap_eq_nil_iff.mpr fun _ _ => rfl
    · intro p hp
      obtain ⟨_, _, heq⟩ := List.mem_map.mp hp
      cases heq
  | tick time =>
    refine h.mono rfl (fun _ hp => by cases hp) rfl ?_ hsame fun _ hr => hr
    exact Int.le_add_of_nonneg_right (Int.natCast_nonneg time)

end

theorem locks_start (days : Nat) (flt : AnnouncementFilter) : Locks (archive days flt).start where
  one i _ _ _ hi := by cases hi
  counts _ hw := by cases hw
  rows _ hw := by cases hw
  nodup := List.nodup_nil
  ids := List.nodup_nil
  used _ hr := by cases hr

theorem numbers_start (days : Nat) (flt : AnnouncementFilter) :
    Numbers days (archive days flt).begin_ where
  committed := rfl
  distinct _ hr := by cases hr
  bounded _ hr := by cases hr
  account n h1 hn := absurd hn (Nat.not_le_of_lt h1)
  gone _ hp := by cases hp
  younger _ hp := by cases hp
  aged _ hp := by cases hp

end Steps
end Meho.Announce
