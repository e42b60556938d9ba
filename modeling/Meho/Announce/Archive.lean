import Meho.Announce.Rows
import Meho.Lib.History
import Meho.Lib.Parties
import Meho.Lib.Query

/- The announcement archive of one tenant, its writers and one reader
(broadcast/archive_sequence.py, broadcast/archive_reader.py, announcement_retention.py).

A row's number comes from the tenant's counter row. A publisher's transaction raises the
counter, inserts its row and commits; a pod of the release before inserts a row without a
number; `number_unnumbered_rows` locks such rows and then the counter, numbers them one by
one and commits. The lock on the counter is held until the transaction ends, so that one
transaction at a time has a number that nobody else sees yet. The prune deletes rows by age.

The reader reads the history from a time on, page by page up to a high-water mark, and then
watches from there. Each of its statements is a step of its own: the mark, the first row of
the window, the oldest row and the page are read while everybody else goes on. Other
readers change nothing but through the numbering, which is among the writers here, and so
is the reader's own.

A statement sees what was committed when it ran. A statement that waits for a lock runs when
the lock is free; `seen` are the rows that a locking SELECT had in its snapshot. INSERT and
COMMIT of a publisher are one step: in between, nobody sees the row and the counter is
locked.

Correspondence: `next_announcement_seq` ↔ `takeNumber`; `number_unnumbered_rows` ↔
`lockRows`, `lockCounter`, `giveNumber`, `commitNumbers`; `_history_start` ↔
`ReaderAt.opened` to `ReaderAt.positioned`; what is not listed keeps its name. A
counter row that is not there yet counts as 0. -/
namespace Meho.Announce
open Meho.Lib

/-! ## Scans -/

inductive GapReason where
  | retentionTrimmed
  | checkpointAhead
  deriving DecidableEq, Repr

/-- The notice that stands in an answer for the events it does not have. -/
structure Gap where
  reason : GapReason
  missedEvents : Option Int
  detail : String
  deriving DecidableEq, Repr

/-- The number of a row, 0 for one that has none. -/
def AgentAnnouncement.number (r : AgentAnnouncement) : Nat := r.seq.getD 0

/-- `after < seq <= upper`, false for a row without a number. -/
def AgentAnnouncement.numberIn (after upper : Nat) (r : AgentAnnouncement) : Bool :=
  r.seq.any fun n => after < n && n ≤ upper

/-- The stored rows of a range, in the order of their numbers. -/
def rowsIn (rows : List AgentAnnouncement) (after upper : Nat) : List AgentAnnouncement :=
  orderBy AgentAnnouncement.number (rows.filter (·.numberIn after upper))

def scan (rows : List AgentAnnouncement) (after upper limit : Nat) : List AgentAnnouncement :=
  (rowsIn rows after upper).take limit

/-- Where a scan ended: at the last row of a full page, at `upper` otherwise. -/
def scanEnd (upper limit : Nat) (page : List AgentAnnouncement) : Nat :=
  if page.length = limit then (page.getLast?.map (·.number)).getD upper else upper

/-- Every number of the range was given to a row, so that a missing row was deleted. -/
def scanGap (after upper limit : Nat) (page : List AgentAnnouncement) : Option Gap :=
  let missed : Int := (scanEnd upper limit page : Int) - after - page.length
  if missed ≤ 0 then none
  else
    some ⟨.retentionTrimmed, some missed,
      toString missed ++
        " announcement(s) after this cursor were removed by archive retention."⟩

/-- `timedelta(days=...)`. -/
def daysLong (days : Nat) : Time := seconds (days * 86400)

/-- Whether a fresh window may reach into deleted rows. -/
def windowGap (days : Nat) (now since : Time) (oldest : Option Nat) (watermark : Nat) :
    Option Gap :=
  let prunedAny : Bool := 1 < oldest.getD (watermark + 1)
  if !prunedAny || days = 0 || now - daysLong days ≤ since then none
  else
    some ⟨.retentionTrimmed, none,
      "announcements older than " ++ toString days ++
        " day(s) were removed; this window starts earlier."⟩

structure StoredAnnouncement where
  seq : Nat
  event : AgentAnnouncementEvent
  deriving DecidableEq, Repr

/-- The window and the filter. -/
def passes (flt : AnnouncementFilter) (now : Time) (since : Option Time) (r : AgentAnnouncement) :
    Bool :=
  !since.any (r.event.ts < ·) && eventMatches flt now r.event

/-- The rows that pass. With ids `seen`, a row of a seen id is skipped and every other one is
seen from here on. -/
def matching (flt : AnnouncementFilter) (now : Time) (since : Option Time) :
    Option (List Nat) → List AgentAnnouncement → List StoredAnnouncement × Option (List Nat)
  | seen, [] => ([], seen)
  | seen, r :: rows =>
    if seen.any (r.event.eventId ∈ ·) then matching flt now since seen rows
    else
      let rest := matching flt now since (seen.map (r.event.eventId :: ·)) rows
      (if passes flt now since r then ⟨r.number, r.event⟩ :: rest.1 else rest.1, rest.2)

/-! ## The writers -/

/-- Where one writing transaction stands. -/
inductive Writer where
  /-- A publisher that raised the counter: the row is inserted next. -/
  | numbered (n : Nat)
  /-- The rows to number are locked, the counter is next. -/
  | locked (ids : List Nat)
  /-- The counter is locked: the numbers given so far, the rows left, and the counter as this
  transaction sees it. -/
  | numbering (given : List (Nat × Nat)) (rest : List Nat) (last : Nat)
  | over
  deriving DecidableEq, Repr

namespace Writer

def holdsCounter : Writer → Bool
  | .numbered _ | .numbering .. => true
  | _ => false

/-- The ids of the rows it has locked. -/
def lockedIds : Writer → List Nat
  | .locked ids => ids
  | .numbering given rest _ => given.map Prod.fst ++ rest
  | _ => []

end Writer

/-! ## The reader -/

/-- Where a reader of the history goes on. -/
structure HistoryPosition where
  watermark : Nat
  afterSeq : Nat
  since : Time
  deriving DecidableEq, Repr

/-- Where the reader stands. -/
inductive ReaderAt where
  | away
  | opened (since : Time)
  | marked (since : Time) (watermark : Nat)
  | firstRead (since : Time) (watermark : Nat) (first : Option Nat)
  /-- The page is scanned next. -/
  | positioned (pos : HistoryPosition) (gap : Option Gap)
  /-- It holds a `next_cursor`. -/
  | paging (pos : HistoryPosition)
  /-- It holds a checkpoint. -/
  | watching (after : Nat)
  /-- Within a call of the watch. -/
  | scanning (after : Nat) (seen : List Nat)
  | watchMarked (after : Nat) (seen : List Nat) (watermark : Nat)
  deriving DecidableEq, Repr

/-- What one scan answered, with the table it ran on and the range it covered. -/
structure Scan where
  stored : List AgentAnnouncement
  after : Nat
  upTo : Nat
  since : Option Time
  now : Time
  events : List StoredAnnouncement
  gap : Option Gap
  deriving DecidableEq, Repr

/-- What a step of the archive leaves behind. -/
inductive ArchiveEvent where
  /-- A row with this number was committed. -/
  | committed (n : Nat)
  | pruned (row : AgentAnnouncement)
  | answered (scan : Scan)
  deriving DecidableEq, Repr

/-! ## The steps -/

/-- The table, its counter and the open writers. -/
structure Archive where
  clock : Time
  lastSeq : Nat
  rows : List AgentAnnouncement
  /-- Every id a row was ever given. -/
  used : List Nat
  writers : List Writer
  reader : ReaderAt
  deriving DecidableEq, Repr

/-- The next statement of a reader of the history. -/
inductive Reading where
  | open_ (since : Time)
  | watermark
  | first
  | oldest
  | page (limit : Nat)
  /-- The next call. -/
  | call
  /-- The scan of a watch, and whether its time is up after it. -/
  | watch (timeUp : Bool)
  deriving DecidableEq, Repr

/-- A statement of a writer, the prune or the reader, or the passing of time. -/
inductive ArchiveAction where
  | takeNumber
  | publish (writer : Nat) (event : AgentAnnouncementEvent) (key : Option String)
  | insertUnnumbered (event : AgentAnnouncementEvent) (key : Option String)
  | lockRows (seen : List Nat)
  | lockCounter (writer : Nat)
  | giveNumber (writer : Nat)
  | commitNumbers (writer : Nat)
  | rollback (writer : Nat)
  | prune (cutoff : Time)
  | read (r : Reading)
  | tick (time : Nat)
  deriving DecidableEq, Repr

/-- `WATCH_SCAN_LIMIT`. -/
def watchScanLimit : Nat := 100

namespace Archive

def counterFree (s : Archive) : Bool := !s.writers.any Writer.holdsCounter

def lockedIds (s : Archive) : List Nat := s.writers.flatMap Writer.lockedIds

/-- The rows without a number that a snapshot saw, oldest first. -/
def unnumbered (s : Archive) (seen : List Nat) : List Nat :=
  (orderBy (fun r : AgentAnnouncement => toLex (r.event.ts, r.event.eventId))
    (s.rows.filter fun r => r.seq = none ∧ r.event.eventId ∈ seen)).map (·.event.eventId)

/-- A row with the number it was given, if any. -/
def numberRow (given : List (Nat × Nat)) (r : AgentAnnouncement) : AgentAnnouncement :=
  match given.find? (·.1 = r.event.eventId) with
  | some pair => { r with seq := some pair.2 }
  | none => r

/-- `min(seq)` over the rows that `p` keeps. -/
def minSeq (s : Archive) (p : AgentAnnouncement → Bool) : Option Nat :=
  ((s.rows.filter p).filterMap (·.seq)).min?

end Archive

section Steps
variable (days : Nat) (flt : AnnouncementFilter)

/-- One page of the history, its answer and where the reader goes on. -/
def historyPage (s : Archive) (pos : HistoryPosition) (gap : Option Gap) (limit : Nat) :
    ReaderAt × Scan :=
  let page := scan s.rows pos.afterSeq pos.watermark limit
  let last := scanEnd pos.watermark limit page
  (if page.length = limit then .paging { pos with afterSeq := last } else .watching pos.watermark,
    { stored := s.rows, after := pos.afterSeq, upTo := last, since := some pos.since
      now := s.clock
      events := (matching flt s.clock (some pos.since) none page).1
      gap := (scanGap pos.afterSeq pos.watermark limit page).or gap })

/-- One scan of a watch, its answer and where the reader goes on. -/
def watchScan (s : Archive) (after : Nat) (seen : List Nat) (watermark : Nat) (timeUp : Bool) :
    ReaderAt × Scan :=
  if watermark < after then
    (.watching watermark,
      { stored := s.rows, after, upTo := watermark, since := none, now := s.clock, events := []
        gap := some ⟨.checkpointAhead, none,
          "the checkpoint is ahead of the archive; watching restarts at its current end."⟩ })
  else
    let page := scan s.rows after watermark watchScanLimit
    let last := scanEnd watermark watchScanLimit page
    let found := matching flt s.clock none (some seen) page
    let gap := scanGap after watermark watchScanLimit page
    (if !found.1.isEmpty || page.length = watchScanLimit || gap.isSome || timeUp then .watching last
      else .scanning last (found.2.getD []),
      { stored := s.rows, after, upTo := last, since := none, now := s.clock, events := found.1
        gap })

/-- One statement of the reader; what is not due changes nothing. -/
def readStep (s : Archive) : Reading → Archive × List ArchiveEvent
  | .open_ since =>
    match s.reader with
    | .away => ({ s with reader := .opened since }, [])
    | _ => (s, [])
  | .watermark =>
    match s.reader with
    | .opened since => ({ s with reader := .marked since s.lastSeq }, [])
    | .scanning after seen => ({ s with reader := .watchMarked after seen s.lastSeq }, [])
    | _ => (s, [])
  | .first =>
    match s.reader with
    | .marked since watermark =>
      ({ s with reader := .firstRead since watermark (s.minSeq (since ≤ ·.event.ts)) }, [])
    | _ => (s, [])
  | .oldest =>
    match s.reader with
    | .firstRead since watermark first =>
      -- the position is put just before the first row of the window
      let after := (first.map fun n => min (n - 1) watermark).getD watermark
      let gap := windowGap days s.clock since (s.minSeq fun _ => true) watermark
      ({ s with reader := .positioned ⟨watermark, after, since⟩ gap }, [])
    | _ => (s, [])
  | .page limit =>
    match s.reader with
    | .positioned pos gap =>
      if limit = 0 then (s, [])
      else
        let answer := historyPage flt s pos gap limit
        ({ s with reader := answer.1 }, [.answered answer.2])
    | _ => (s, [])
  | .call =>
    match s.reader with
    | .paging pos => ({ s with reader := .positioned pos none }, [])
    | .watching after => ({ s with reader := .scanning after [] }, [])
    | _ => (s, [])
  | .watch timeUp =>
    match s.reader with
    | .watchMarked after seen watermark =>
      let answer := watchScan flt s after seen watermark timeUp
      ({ s with reader := answer.1 }, [.answered answer.2])
    | _ => (s, [])

namespace Archive

/-- Writer `i` goes on to `w`. -/
def goto (s : Archive) (i : Nat) (w : Writer) : Archive :=
  { s with writers := Parties.moveOne s.writers i w }

/-- One step of one party; what is not due, or waits for a lock, changes nothing. -/
def step (s : Archive) : ArchiveAction → Archive × List ArchiveEvent
  | .takeNumber =>
    if s.counterFree then ({ s with writers := s.writers ++ [.numbered (s.lastSeq + 1)] }, [])
    else (s, [])
  | .publish i event key =>
    match s.writers[i]? with
    | some (.numbered n) =>
      if event.eventId ∈ s.used then (s, [])
      else
        ({ s.goto i .over with
            lastSeq := n
            rows := s.rows ++ [⟨event, key, none, some n⟩]
            used := event.eventId :: s.used }, [.committed n])
    | _ => (s, [])
  | .insertUnnumbered event key =>
    if event.eventId ∈ s.used then (s, [])
    else
      ({ s with
          rows := s.rows ++ [⟨event, key, none, none⟩]
          used := event.eventId :: s.used }, [])
  | .lockRows seen =>
    let ids := s.unnumbered seen
    if ids = [] ∨ ids.any (· ∈ s.lockedIds) then (s, [])
    else ({ s with writers := s.writers ++ [.locked ids] }, [])
  | .lockCounter i =>
    match s.writers[i]? with
    | some (.locked ids) =>
      if s.counterFree then (s.goto i (.numbering [] ids s.lastSeq), []) else (s, [])
    | _ => (s, [])
  | .giveNumber i =>
    match s.writers[i]? with
    | some (.numbering given (id :: rest) last) =>
      (s.goto i (.numbering (given ++ [(id, last + 1)]) rest (last + 1)), [])
    | _ => (s, [])
  | .commitNumbers i =>
    match s.writers[i]? with
    | some (.numbering given [] last) =>
      ({ s.goto i .over with lastSeq := last, rows := s.rows.map (numberRow given) },
        given.map fun pair => .committed pair.2)
    | _ => (s, [])
  | .rollback i =>
    match s.writers[i]? with
    | some _ => (s.goto i .over, [])
    | none => (s, [])
  | .prune cutoff =>
    let old := s.rows.filter (·.event.ts < cutoff)
    -- the DELETE waits for the rows that are locked
    if s.clock < cutoff + daysLong days ∨ old.any (·.event.eventId ∈ s.lockedIds) then (s, [])
    else
      ({ s with rows := s.rows.filter fun r => ¬ r.event.ts < cutoff },
        old.map ArchiveEvent.pruned)
  | .read r => readStep days flt s r
  | .tick time => ({ s with clock := s.clock + time }, [])

end Archive

/-- The archive of one tenant under one retention, and one reader with its filter. -/
def archive : Machine Archive ArchiveAction ArchiveEvent where
  start := ⟨0, 0, [], [], [], .away⟩
  step s a := s.step days flt a

end Steps
end Meho.Announce
