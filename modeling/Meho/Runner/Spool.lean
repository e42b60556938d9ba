import Meho.Lib.History
import Meho.Runner.EffectLog
import Meho.Runner.Executor

/- The runner's ticks and its spool of results (runner/loop.py, runner/spool.py).

A tick re-posts what is in the spool, fetches the assignment, executes its items
and posts the batch of results. A batch that could not be posted is written to
the spool: one file, named after the clock, a counter and a random part. Files
are read and dropped in the order of their names.

`ResultSpool.files` is the directory in the order in which its files were
written, so the head is the oldest file. The names are in that order only while
the clock does not go back between two writes: it is the wall clock, and the
counter starts again with the process. `Fresh` says that a new name comes after
the names it joins. In every run where it does, nothing is lost that need not be,
and both the re-posts and the drops take the oldest file first
(`spool_oldest_first`); a clock that goes back turns the order around
(`newer_reposted_first`).

Correspondence: `remove` and `unlink` ↔ `remove`, `_execute_and_report` ↔ `dueBatch`
and `executeAndReport`, `_run_loop` ↔ `runnerLoop`; what is not listed keeps its name.
What the uplink answers, what a handler does and what the clock shows are inputs of a
tick. -/
namespace Meho.Runner
open Meho.Lib

variable (C : Crypto)

/-! ## The wire and the disk -/

structure RunnerAssignment where
  assignmentVersion : String
  items : List RunnerWorkItem

structure RunnerResultBatch where
  runnerId : String
  results : List RunnerResult

/-- A batch on disk under its file name. -/
structure SpoolFile where
  name : List Char
  batch : RunnerResultBatch

/-- How `post_results` ends: it returns, or raises one of the two errors of the client. -/
inductive PostAnswer where
  | accepted
  | failed
  | versionMismatch
  deriving DecidableEq, Repr

/-- How `fetch_assignment` ends. -/
inductive FetchAnswer where
  | assignment (fetched : RunnerAssignment)
  | unchanged
  | failed
  | versionMismatch

structure RunnerState where
  assignment : Option RunnerAssignment
  assignmentVersion : Option String

/-- The directory, oldest file first, and the counter of the process. -/
structure ResultSpool where
  files : List SpoolFile
  seq : Nat

structure RunnerSettings where
  runnerId : String
  spoolMaxFiles : Nat
  spoolMaxFiles_pos : 0 < spoolMaxFiles

/-! ## The spool -/

/-- `<epoch_ms>-<seq>-<uuid4>.json`. -/
def spoolName (epochMs seq : Nat) (uuid : List Char) : List Char :=
  (padded 13 epochMs).toList ++ '-' :: ((padded 6 seq).toList ++ '-' :: (uuid ++ ".json".toList))

namespace ResultSpool

/-- The files in the order of their names. -/
def listFiles (s : ResultSpool) : List SpoolFile :=
  s.files.insertionSort fun a b => nameLe a.name b.name

def remove (s : ResultSpool) (f : SpoolFile) : ResultSpool :=
  { s with files := s.files.filter (·.name ≠ f.name) }

/-- The files a pass over the sorted list drops. -/
def overCap (maxFiles : Nat) : List SpoolFile → List SpoolFile
  | [] => []
  | f :: files => if maxFiles ≤ files.length + 1 then f :: overCap maxFiles files else []

/-- What is left, and what was dropped for it. -/
def enforceCap (maxFiles : Nat) (s : ResultSpool) : ResultSpool × List SpoolFile :=
  let dropped := overCap maxFiles s.listFiles
  (dropped.foldl remove s, dropped)

/-- `os.replace` puts the file in the place of one of the same name. -/
def place (s : ResultSpool) (f : SpoolFile) : ResultSpool :=
  ⟨(s.remove f).files ++ [f], s.seq + 1⟩

def writeBatch (maxFiles epochMs : Nat) (uuid : List Char) (batch : RunnerResultBatch)
    (s : ResultSpool) : ResultSpool × List SpoolFile :=
  let (s, dropped) := s.enforceCap maxFiles
  (s.place ⟨spoolName epochMs s.seq uuid, batch⟩, dropped)

/-- A file that cannot be read is passed over. -/
def loadOldestFirst (readable : List Char → Bool) (s : ResultSpool) : List SpoolFile :=
  s.listFiles.filter fun f => readable f.name

end ResultSpool

/-! ## A tick -/

/-- What a tick meets. Posts and items are numbered in the order of the tick. -/
structure Tick where
  readable : List Char → Bool
  repost : Nat → PostAnswer
  fetch : FetchAnswer
  env : Nat → RunnerEnv
  handler : Nat → Invocation → HandlerOutcome
  post : PostAnswer
  epochMs : Nat
  uuid : List Char

/-- What a tick did, in order. -/
inductive SpoolEvent where
  | reposted (f : SpoolFile) (answer : PostAnswer)
  | executed (batch : RunnerResultBatch)
  | posted (batch : RunnerResultBatch) (answer : PostAnswer)
  | dropped (f : SpoolFile)

/-- How a part of a tick ends: the spool, what was seen, and whether it raised the refusal of the
wire version. -/
structure Outcome where
  spool : ResultSpool
  events : List SpoolEvent
  raised : Bool

/-- The re-posts from the `i`-th on. -/
def drainSpool (repost : Nat → PostAnswer) : Nat → List SpoolFile → ResultSpool → Outcome
  | _, [], s => ⟨s, [], false⟩
  | i, f :: files, s =>
    match repost i with
    | .versionMismatch => ⟨s, [.reposted f .versionMismatch], true⟩
    | .failed => ⟨s, [.reposted f .failed], false⟩
    | .accepted =>
      let rest := drainSpool repost (i + 1) files (s.remove f)
      { rest with events := .reposted f .accepted :: rest.events }

/-- The state after the fetch, unless it raised. A failed fetch keeps the cache. -/
def fetchAssignment (answer : FetchAnswer) (state : RunnerState) : Option RunnerState :=
  match answer with
  | .assignment fetched => some ⟨some fetched, some fetched.assignmentVersion⟩
  | .unchanged | .failed => some state
  | .versionMismatch => none

/-- The result of the `i`-th item. -/
def Tick.result (t : Tick) (i : Nat) (item : RunnerWorkItem) : RunnerResult :=
  match executeWorkItem C (t.env i) item with
  | .error result => result
  | .ok call => invoke (t.env i) item (t.handler i call)

/-- The batch of the cached assignment, unless there is nothing to execute. -/
def dueBatch (runnerId : String) (t : Tick) (state : RunnerState) : Option RunnerResultBatch :=
  match state.assignment with
  | none => none
  | some assignment =>
    if assignment.items.isEmpty then none
    else some ⟨runnerId, assignment.items.mapIdx (t.result C)⟩

def executeAndReport (settings : RunnerSettings) (t : Tick) (state : RunnerState)
    (s : ResultSpool) : Outcome :=
  match dueBatch C settings.runnerId t state with
  | none => ⟨s, [], false⟩
  | some batch =>
    match t.post with
    | .accepted => ⟨s, [.executed batch, .posted batch .accepted], false⟩
    | answer =>
      let (s, dropped) := s.writeBatch settings.spoolMaxFiles t.epochMs t.uuid batch
      ⟨s, .executed batch :: .posted batch answer :: dropped.map .dropped,
        answer = .versionMismatch⟩

/-- A runner: its directory, which outlives it, and its state. -/
structure RunnerProc where
  spool : ResultSpool
  state : RunnerState

def cleared : RunnerState := ⟨none, none⟩

/-- The part of a tick before the fetch. -/
def RunnerProc.drain (w : RunnerProc) (t : Tick) : Outcome :=
  drainSpool t.repost 0 (w.spool.loadOldestFirst t.readable) w.spool

/-- The part behind the fetch, if the tick comes to it. -/
def RunnerProc.report (settings : RunnerSettings) (w : RunnerProc) (t : Tick) :
    Option (RunnerState × Outcome) :=
  if (w.drain t).raised then none
  else (fetchAssignment t.fetch w.state).map fun state =>
    (state, executeAndReport C settings t state (w.drain t).spool)

def runOneTick (settings : RunnerSettings) (t : Tick) (w : RunnerProc) :
    RunnerProc × List SpoolEvent :=
  match w.report C settings t with
  | none => (⟨(w.drain t).spool, cleared⟩, (w.drain t).events)
  | some (state, reported) =>
    (⟨reported.spool, if reported.raised then cleared else state⟩,
      (w.drain t).events ++ reported.events)

/-- A tick, or a new process on the same directory. -/
inductive RunnerAct where
  | tick (t : Tick)
  | restart

def runnerLoop (settings : RunnerSettings) : Machine RunnerProc RunnerAct SpoolEvent where
  start := ⟨⟨[], 0⟩, cleared⟩
  step w
    | .tick t => runOneTick C settings t w
    | .restart => (⟨⟨w.spool.files, 0⟩, cleared⟩, [])

/-! ## What a list of events says -/

def reposts (events : List SpoolEvent) : List (SpoolFile × PostAnswer) :=
  events.filterMap fun
    | .reposted f answer => some (f, answer)
    | _ => none

/-- The files whose re-post was accepted. -/
def sentFiles (events : List SpoolEvent) : List SpoolFile :=
  events.filterMap fun
    | .reposted f .accepted => some f
    | _ => none

def drops (events : List SpoolEvent) : List SpoolFile :=
  events.filterMap fun
    | .dropped f => some f
    | _ => none

def executedBatches (events : List SpoolEvent) : List RunnerResultBatch :=
  events.filterMap fun
    | .executed batch => some batch
    | _ => none

/-- The batches central accepted, from the spool or fresh. -/
def sentBatches (events : List SpoolEvent) : List RunnerResultBatch :=
  events.filterMap fun
    | .reposted f .accepted => some f.batch
    | .posted batch .accepted => some batch
    | _ => none

@[simp] theorem executedBatches_append (es es' : List SpoolEvent) :
    executedBatches (es ++ es') = executedBatches es ++ executedBatches es' :=
  List.filterMap_append

@[simp] theorem sentBatches_append (es es' : List SpoolEvent) :
    sentBatches (es ++ es') = sentBatches es ++ sentBatches es' := List.filterMap_append

@[simp] theorem drops_append (es es' : List SpoolEvent) : drops (es ++ es') = drops es ++ drops es' :=
  List.filterMap_append

section
variable (files : List SpoolFile)
include files

@[simp] theorem drops_map_dropped : drops (files.map .dropped) = files := by
  unfold drops
  rw [List.filterMap_map]
  exact List.filterMap_some

@[simp] theorem executedBatches_map_dropped : executedBatches (files.map .dropped) = [] := by
  unfold executedBatches
  rw [List.filterMap_map]
  exact List.filterMap_eq_nil_iff.mpr fun f _ => rfl

@[simp] theorem sentBatches_map_dropped : sentBatches (files.map .dropped) = [] := by
  unfold sentBatches
  rw [List.filterMap_map]
  exact List.filterMap_eq_nil_iff.mpr fun f _ => rfl

@[simp] theorem reposts_map_dropped : reposts (files.map .dropped) = [] := by
  unfold reposts
  rw [List.filterMap_map]
  exact List.filterMap_eq_nil_iff.mpr fun f _ => rfl

@[simp] theorem sentFiles_map_dropped : sentFiles (files.map .dropped) = [] := by
  unfold sentFiles
  rw [List.filterMap_map]
  exact List.filterMap_eq_nil_iff.mpr fun f _ => rfl

end

/-! ## Removing files -/

namespace ResultSpool

theorem foldl_remove_files (l : List SpoolFile) (s : ResultSpool) :
    (l.foldl remove s).files = s.files.filter fun f => f.name ∉ l.map (·.name) := by
  induction l generalizing s with
  | nil => simp
  | cons g l ih =>
    rw [List.foldl_cons, ih, remove, List.filter_filter]
    apply List.filter_congr
    intro f _
    simp [Bool.and_comm]

/-- A removed file is the one of its name. -/
theorem remove_perm {s : ResultSpool} {f : SpoolFile} (hmem : f ∈ s.files)
    (hnodup : (s.files.map (·.name)).Nodup) : s.files.Perm (f :: (s.remove f).files) := by
  obtain ⟨files, seq⟩ := s
  unfold remove
  simp only at hmem hnodup ⊢
  induction files with
  | nil => cases hmem
  | cons g files ih =>
    rw [List.map_cons, List.nodup_cons] at hnodup
    rcases List.mem_cons.mp hmem with rfl | hrest
    · have hsame : files.filter (·.name ≠ f.name) = files := by
        apply List.filter_eq_self.mpr
        intro x hx
        have hne : x.name ≠ f.name := fun heq => hnodup.1 (heq ▸ List.mem_map_of_mem hx)
        simpa using hne
      simp only [ne_eq, not_true_eq_false, decide_false, Bool.false_eq_true, not_false_eq_true,
        List.filter_cons_of_neg, hsame]
      exact List.Perm.refl _
    · have hne : g.name ≠ f.name := fun heq =>
        hnodup.1 (heq ▸ List.mem_map_of_mem hrest)
      rw [List.filter_cons_of_pos (by simpa using hne)]
      exact ((ih hrest hnodup.2).cons g).trans (List.Perm.swap f g _)

theorem remove_nodup {s : ResultSpool} (f : SpoolFile) (hnodup : (s.files.map (·.name)).Nodup) :
    ((s.remove f).files.map (·.name)).Nodup :=
  hnodup.sublist (List.filter_sublist.map _)

/-- Files of different names are taken out one by one. -/
theorem foldl_remove_perm {l : List SpoolFile} {s : ResultSpool} (hsub : ∀ f ∈ l, f ∈ s.files)
    (hl : (l.map (·.name)).Nodup) (hnodup : (s.files.map (·.name)).Nodup) :
    s.files.Perm (l ++ (l.foldl remove s).files) := by
  induction l generalizing s with
  | nil => exact List.Perm.refl _
  | cons f l ih =>
    rw [List.map_cons, List.nodup_cons] at hl
    have hmem : f ∈ s.files := hsub f List.mem_cons_self
    have hleft : ∀ g ∈ l, g ∈ (s.remove f).files := by
      intro g hg
      have hne : g.name ≠ f.name := fun heq => hl.1 (heq ▸ List.mem_map_of_mem hg)
      exact List.mem_filter.mpr ⟨hsub g (List.mem_cons_of_mem f hg), by simpa using hne⟩
    have hfirst := remove_perm hmem hnodup
    exact hfirst.trans ((ih hleft hl.2 (remove_nodup f hnodup)).cons f)

theorem overCap_prefix (maxFiles : Nat) (files : List SpoolFile) :
    overCap maxFiles files <+: files := by
  induction files with
  | nil => exact List.prefix_refl []
  | cons f files ih =>
    unfold overCap
    split
    · exact List.prefix_cons_inj f |>.mpr ih
    · exact List.nil_prefix

/-- As many are dropped as make room for one more. -/
theorem overCap_length {maxFiles : Nat} (hpos : 0 < maxFiles) (files : List SpoolFile) :
    (overCap maxFiles files).length = files.length + 1 - maxFiles := by
  induction files with
  | nil =>
    simp only [overCap, List.length_nil]
    omega
  | cons f files ih =>
    unfold overCap
    split
    · rw [List.length_cons, List.length_cons, ih]
      omega
    · rw [List.length_nil, List.length_cons]
      omega

/-- A list of files is in the order of their names. -/
def Ordered (files : List SpoolFile) : Prop :=
  files.Pairwise fun a b => nameLe a.name b.name = true ∧ a.name ≠ b.name

theorem Ordered.nodup {files : List SpoolFile} (h : Ordered files) :
    (files.map (·.name)).Nodup :=
  List.pairwise_map.mpr (h.imp And.right)

theorem Ordered.filter {files : List SpoolFile} (h : Ordered files) (p : SpoolFile → Bool) :
    Ordered (files.filter p) := List.Pairwise.sublist List.filter_sublist h

/-- Then reading the directory in the order of names is reading the oldest file first. -/
theorem Ordered.listFiles_eq {s : ResultSpool} (h : Ordered s.files) : s.listFiles = s.files :=
  List.Pairwise.insertionSort_eq (h.imp And.left)

end ResultSpool

/-! ## The drain -/

section Drain
variable (repost : Nat → PostAnswer)

section
variable (i : Nat) (files : List SpoolFile) (s : ResultSpool)
include i files s

theorem drainSpool_spool :
    (drainSpool repost i files s).spool =
      (sentFiles (drainSpool repost i files s).events).foldl ResultSpool.remove s := by
  induction files generalizing i s with
  | nil => rfl
  | cons f files ih =>
    unfold drainSpool
    split
    · rfl
    · rfl
    · exact ih (i + 1) (s.remove f)

theorem drainSpool_order : (reposts (drainSpool repost i files s).events).map (·.1) <+: files := by
  induction files generalizing i s with
  | nil => exact List.prefix_refl []
  | cons f files ih =>
    unfold drainSpool
    split
    · exact List.prefix_cons_inj f |>.mpr List.nil_prefix
    · exact List.prefix_cons_inj f |>.mpr List.nil_prefix
    · exact List.prefix_cons_inj f |>.mpr (ih (i + 1) (s.remove f))

theorem drainSpool_stops :
    ∀ r ∈ (reposts (drainSpool repost i files s).events).dropLast, r.2 = .accepted := by
  induction files generalizing i s with
  | nil => simp [drainSpool, reposts]
  | cons f files ih =>
    unfold drainSpool
    split
    · simp [reposts]
    · simp [reposts]
    · intro r hr
      have hcons : reposts (.reposted f .accepted ::
          (drainSpool repost (i + 1) files (s.remove f)).events) = (f, .accepted) ::
          reposts (drainSpool repost (i + 1) files (s.remove f)).events := rfl
      simp only [hcons] at hr
      cases hrest : reposts (drainSpool repost (i + 1) files (s.remove f)).events with
      | nil => simp [hrest] at hr
      | cons r' rest =>
        rw [hrest, List.dropLast_cons_cons, List.mem_cons] at hr
        rcases hr with rfl | hr
        · rfl
        · exact ih (i + 1) (s.remove f) r (hrest ▸ hr)

theorem drainSpool_all (hall : ∀ r ∈ reposts (drainSpool repost i files s).events, r.2 = .accepted) :
    (reposts (drainSpool repost i files s).events).map (·.1) = files := by
  induction files generalizing i s with
  | nil => rfl
  | cons f files ih =>
    unfold drainSpool at hall ⊢
    split
    · rename_i hans
      rw [hans] at hall
      cases hall (f, .versionMismatch) (by simp [reposts])
    · rename_i hans
      rw [hans] at hall
      cases hall (f, .failed) (by simp [reposts])
    · rename_i hans
      simp only [hans] at hall
      have hrest := ih (i + 1) (s.remove f) fun r hr => hall r (List.mem_cons_of_mem _ hr)
      exact congrArg (f :: ·) hrest

theorem drainSpool_quiet :
    ∀ e ∈ (drainSpool repost i files s).events, ∃ f answer, e = .reposted f answer := by
  induction files generalizing i s with
  | nil => simp [drainSpool]
  | cons f files ih =>
    unfold drainSpool
    split
    · simp
    · simp
    · intro e he
      rcases List.mem_cons.mp he with rfl | he
      · exact ⟨f, .accepted, rfl⟩
      · exact ih (i + 1) (s.remove f) e he

end

end Drain

/-! ## What a tick can do -/

section Moves
variable (settings : RunnerSettings)

/-- The tick executes a batch and cannot post it. -/
def RunnerProc.spools (w : RunnerProc) (t : Tick) : Bool :=
  !(w.drain t).raised && match fetchAssignment t.fetch w.state with
    | none => false
    | some state => (dueBatch C settings.runnerId t state).isSome && t.post ≠ .accepted

/-- The spool a batch of this tick is written to, and what was dropped before. -/
def RunnerProc.room (w : RunnerProc) (t : Tick) : ResultSpool × List SpoolFile :=
  (w.drain t).spool.enforceCap settings.spoolMaxFiles

/-- The name of a batch written in this tick. -/
def RunnerProc.newName (w : RunnerProc) (t : Tick) : List Char :=
  spoolName t.epochMs (w.room settings t).1.seq t.uuid

/-- Behind the drain a tick does nothing, or posts a batch, or writes it to the spool. -/
inductive TickMove (t : Tick) (w : RunnerProc) : RunnerProc × List SpoolEvent → Prop
  | idle (state : RunnerState) : TickMove t w (⟨(w.drain t).spool, state⟩, (w.drain t).events)
  | sent (state : RunnerState) (batch : RunnerResultBatch) : TickMove t w
      (⟨(w.drain t).spool, state⟩,
        (w.drain t).events ++ [.executed batch, .posted batch .accepted])
  | kept (state : RunnerState) (batch : RunnerResultBatch) (answer : PostAnswer)
      (hspools : w.spools C settings t = true) (hanswer : answer ≠ .accepted) : TickMove t w
      (⟨(w.room settings t).1.place ⟨w.newName settings t, batch⟩, state⟩,
        (w.drain t).events ++
          .executed batch :: .posted batch answer :: (w.room settings t).2.map .dropped)

theorem runOneTick_move (t : Tick) (w : RunnerProc) :
    TickMove C settings t w (runOneTick C settings t w) := by
  unfold runOneTick RunnerProc.report
  by_cases hraised : (w.drain t).raised = true
  · rw [if_pos hraised]
    exact .idle cleared
  rw [if_neg hraised]
  cases hfetch : fetchAssignment t.fetch w.state with
  | none => exact .idle cleared
  | some state =>
    simp only [Option.map_some, executeAndReport]
    cases hdue : dueBatch C settings.runnerId t state with
    | none =>
      simp only [List.append_nil]
      exact .idle _
    | some batch =>
      have hspools : t.post ≠ .accepted → w.spools C settings t = true := by
        intro hpost
        simp [RunnerProc.spools, hraised, hfetch, hdue, hpost]
      cases hpost : t.post with
      | accepted => exact .sent _ batch
      | failed => exact .kept _ batch .failed (hspools (by simp [hpost])) nofun
      | versionMismatch =>
        exact .kept _ batch .versionMismatch (hspools (by simp [hpost])) nofun

end Moves

section Fresh
variable (settings : RunnerSettings)

/-- **A batch that is written gets a name behind the names of the files it joins.** -/
def Fresh (c : Config RunnerProc SpoolEvent) : RunnerAct → Prop
  | .restart => True
  | .tick t => c.state.spools C settings t = true → ∀ f ∈ (c.state.room settings t).1.files,
    nameLe f.name (c.state.newName settings t) = true ∧ f.name ≠ c.state.newName settings t

end Fresh

/-! ## Nothing is lost that need not be -/

section Kept
variable (settings : RunnerSettings)

/-- Every executed batch was accepted, is in the spool, or was dropped; and the spool is within
its cap, in the order of names. -/
structure SpoolKept (c : Config RunnerProc SpoolEvent) : Prop where
  accounted : (executedBatches c.events).Perm
    (sentBatches c.events ++ (c.state.spool.files.map (·.batch) ++
      (drops c.events).map (·.batch)))
  withinCap : c.state.spool.files.length ≤ settings.spoolMaxFiles
  ordered : ResultSpool.Ordered c.state.spool.files

/-- What a tick took out of the spool, against the files it found there, oldest first. -/
structure OldestFirst (t : Tick) (files : List SpoolFile) (events : List SpoolEvent) : Prop where
  order : (reposts events).map (·.1) <+: files.filter fun f => t.readable f.name
  stops : ∀ r ∈ (reposts events).dropLast, r.2 = .accepted
  all : (∀ r ∈ reposts events, r.2 = .accepted) →
    (reposts events).map (·.1) = files.filter fun f => t.readable f.name
  drop : drops events = [] ∨
    ∃ left, left = files.filter (fun f => f.name ∉ (sentFiles events).map (·.name)) ∧
      left.length = settings.spoolMaxFiles ∧ drops events = left.take 1

theorem sentBatches_drain (w : RunnerProc) (t : Tick) :
    sentBatches (w.drain t).events = (sentFiles (w.drain t).events).map (·.batch) := by
  unfold sentBatches sentFiles
  rw [List.map_filterMap]
  apply List.filterMap_congr
  intro e he
  obtain ⟨f, answer, rfl⟩ := drainSpool_quiet _ _ _ _ e he
  cases answer <;> rfl

theorem executedBatches_drain (w : RunnerProc) (t : Tick) :
    executedBatches (w.drain t).events = [] := by
  apply List.filterMap_eq_nil_iff.mpr
  intro e he
  obtain ⟨f, answer, rfl⟩ := drainSpool_quiet _ _ _ _ e he
  rfl

theorem drops_drain (w : RunnerProc) (t : Tick) : drops (w.drain t).events = [] := by
  apply List.filterMap_eq_nil_iff.mpr
  intro e he
  obtain ⟨f, answer, rfl⟩ := drainSpool_quiet _ _ _ _ e he
  rfl

/-- A file whose re-post was accepted is one that was re-posted. -/
theorem sentFiles_sublist (events : List SpoolEvent) :
    (sentFiles events).Sublist ((reposts events).map (·.1)) := by
  induction events with
  | nil => exact List.Sublist.refl []
  | cons e events ih =>
    cases e with
    | reposted f answer =>
      cases answer with
      | accepted => exact ih.cons_cons f
      | failed => exact ih.cons f
      | versionMismatch => exact ih.cons f
    | executed => exact ih
    | posted => exact ih
    | dropped => exact ih

variable {w : RunnerProc} {t : Tick}

/-- Under the order of names a drain reads the files of the directory. -/
theorem loadOldestFirst_eq (h : ResultSpool.Ordered w.spool.files) :
    w.spool.loadOldestFirst t.readable = w.spool.files.filter fun f => t.readable f.name := by
  unfold ResultSpool.loadOldestFirst
  rw [h.listFiles_eq]

theorem sentFiles_drain_sublist (h : ResultSpool.Ordered w.spool.files) :
    (sentFiles (w.drain t).events).Sublist w.spool.files := by
  have hposted := (sentFiles_sublist (w.drain t).events).trans
    (drainSpool_order t.repost 0 (w.spool.loadOldestFirst t.readable) w.spool).sublist
  rw [loadOldestFirst_eq h] at hposted
  exact hposted.trans List.filter_sublist

/-- The files the drain left. -/
theorem drain_files (w : RunnerProc) (t : Tick) : (w.drain t).spool.files =
    w.spool.files.filter fun f => f.name ∉ (sentFiles (w.drain t).events).map (·.name) := by
  have hspool := drainSpool_spool t.repost 0 (w.spool.loadOldestFirst t.readable) w.spool
  exact (congrArg ResultSpool.files hspool).trans (ResultSpool.foldl_remove_files _ _)

section
variable (h : ResultSpool.Ordered w.spool.files)
include h

theorem drain_ordered (t : Tick) : ResultSpool.Ordered (w.drain t).spool.files := by
  rw [drain_files]
  exact h.filter _

theorem drain_perm (t : Tick) :
    w.spool.files.Perm (sentFiles (w.drain t).events ++ (w.drain t).spool.files) := by
  have hsub := sentFiles_drain_sublist (t := t) h
  have hspool := drainSpool_spool t.repost 0 (w.spool.loadOldestFirst t.readable) w.spool
  have hperm := ResultSpool.foldl_remove_perm (fun f hf => hsub.mem hf)
    (h.nodup.sublist (hsub.map _)) h.nodup
  unfold RunnerProc.drain at hperm ⊢
  rw [← hspool] at hperm
  exact hperm

theorem room_dropped (t : Tick) :
    (w.room settings t).2 = (w.drain t).spool.files.take
      ((w.drain t).spool.files.length + 1 - settings.spoolMaxFiles) := by
  have hlist := (drain_ordered h t).listFiles_eq
  have hfront := ResultSpool.overCap_prefix settings.spoolMaxFiles (w.drain t).spool.files
  have hlen := ResultSpool.overCap_length settings.spoolMaxFiles_pos (w.drain t).spool.files
  unfold RunnerProc.room ResultSpool.enforceCap
  rw [hlist, ← hlen]
  exact List.prefix_iff_eq_take.mp hfront

theorem room_perm (t : Tick) :
    (w.drain t).spool.files.Perm ((w.room settings t).2 ++ (w.room settings t).1.files) := by
  have hdrained := drain_ordered h t
  have hsub : (w.room settings t).2.Sublist (w.drain t).spool.files := by
    rw [room_dropped settings h]
    exact List.take_sublist _ _
  exact ResultSpool.foldl_remove_perm (fun f hf => hsub.mem hf)
    (hdrained.nodup.sublist (hsub.map _)) hdrained.nodup

theorem room_ordered (t : Tick) : ResultSpool.Ordered (w.room settings t).1.files := by
  have hfiles : (w.room settings t).1.files = _ := ResultSpool.foldl_remove_files _ _
  rw [hfiles]
  exact (drain_ordered h t).filter _

theorem room_length (t : Tick) :
    (w.room settings t).1.files.length + 1 ≤ settings.spoolMaxFiles := by
  have hperm := (room_perm settings h t).length_eq
  have hpos := settings.spoolMaxFiles_pos
  rw [List.length_append, room_dropped settings h, List.length_take] at hperm
  omega

end

/-- A file with a name of its own comes last. -/
theorem place_files {s : ResultSpool} {f : SpoolFile} (h : ∀ g ∈ s.files, g.name ≠ f.name) :
    (s.place f).files = s.files ++ [f] := by
  have hsame : (s.remove f).files = s.files := by
    apply List.filter_eq_self.mpr
    intro g hg
    simpa using h g hg
  unfold ResultSpool.place
  rw [hsame]

/-- One more step of an account that balances. -/
theorem perm_balance {α : Type} {executed sent kept dropped executed' sent' kept' dropped' : List α}
    (h : executed.Perm (sent ++ (kept ++ dropped)))
    (hstep : (executed' ++ kept).Perm (sent' ++ (kept' ++ dropped'))) :
    (executed ++ executed').Perm (sent ++ sent' ++ (kept' ++ (dropped ++ dropped'))) := by
  classical
  rw [List.perm_iff_count] at h hstep ⊢
  intro a
  have hbefore := h a
  have hnew := hstep a
  simp only [List.count_append] at hbefore hnew ⊢
  omega

/-- What a tick executes and what it finds in the spool is sent, kept or dropped. -/
theorem TickMove.balance {out : RunnerProc × List SpoolEvent}
    (hmove : TickMove C settings t w out) (hordered : ResultSpool.Ordered w.spool.files)
    (hfresh : w.spools C settings t = true → ∀ f ∈ (w.room settings t).1.files,
      f.name ≠ w.newName settings t) :
    (executedBatches out.2 ++ w.spool.files.map (·.batch)).Perm
      (sentBatches out.2 ++ (out.1.spool.files.map (·.batch) ++ (drops out.2).map (·.batch))) := by
  -- batch by batch: what was executed is sent, kept in the spool, or dropped
  classical
  have hdrain := (drain_perm hordered t).map (·.batch)
  rw [List.perm_iff_count] at hdrain ⊢
  intro b
  have hfound := hdrain b
  cases hmove with
  | idle state =>
    simp only [executedBatches_drain, sentBatches_drain, drops_drain, List.map_append,
      List.count_append, List.map_nil, List.count_nil] at hfound ⊢
    omega
  | sent state batch =>
    have hexecuted : executedBatches [.executed batch, .posted batch .accepted] = [batch] := rfl
    have hsent : sentBatches [.executed batch, .posted batch .accepted] = [batch] := rfl
    have hdrops : drops [.executed batch, .posted batch .accepted] = [] := rfl
    simp only [executedBatches_append, sentBatches_append, drops_append, executedBatches_drain,
      sentBatches_drain, drops_drain, hexecuted, hsent, hdrops, List.map_append,
      List.count_append, List.map_nil, List.count_nil] at hfound ⊢
    omega
  | kept state batch answer hspools hanswer =>
    have hroom := (List.perm_iff_count.mp ((room_perm settings hordered t).map (·.batch))) b
    have hexecuted : executedBatches (.executed batch :: .posted batch answer ::
        (w.room settings t).2.map .dropped) = [batch] :=
      congrArg (batch :: ·) (executedBatches_map_dropped _)
    have hsent : sentBatches (.executed batch :: .posted batch answer ::
        (w.room settings t).2.map .dropped) = [] := by
      cases answer with
      | accepted => exact absurd rfl hanswer
      | failed => exact sentBatches_map_dropped _
      | versionMismatch => exact sentBatches_map_dropped _
    have hdrops : drops (.executed batch :: .posted batch answer ::
        (w.room settings t).2.map .dropped) = (w.room settings t).2 :=
      drops_map_dropped _
    have hplace := place_files (f := ⟨w.newName settings t, batch⟩) (hfresh hspools)
    simp only [executedBatches_append, sentBatches_append, drops_append, executedBatches_drain,
      sentBatches_drain, drops_drain, hexecuted, hsent, hdrops, hplace, List.map_append,
      List.map_cons, List.map_nil, List.nil_append, List.count_append, List.count_nil]
      at hfound hroom ⊢
    omega

theorem SpoolKept.tick {c : Config RunnerProc SpoolEvent} (h : SpoolKept settings c) {t : Tick}
    (hfresh : Fresh C settings c (.tick t)) :
    SpoolKept settings ((runnerLoop C settings).next c (.tick t)) := by
  have hmove := runOneTick_move C settings t c.state
  have hbalance := hmove.balance C settings h.ordered fun hspools f hf => (hfresh hspools f hf).2
  have haccounted := perm_balance h.accounted hbalance
  have hleft : (c.state.drain t).spool.files.length ≤ settings.spoolMaxFiles := by
    rw [drain_files]
    exact Nat.le_trans (List.length_filter_le _ _) h.withinCap
  have hspool : (runOneTick C settings t c.state).1.spool.files.length ≤ settings.spoolMaxFiles ∧
      ResultSpool.Ordered (runOneTick C settings t c.state).1.spool.files := by
    generalize runOneTick C settings t c.state = out at hmove
    cases hmove with
    | idle state | sent state batch => exact ⟨hleft, drain_ordered h.ordered t⟩
    | kept state batch answer hspools hanswer =>
      have hlast := hfresh hspools
      have hplace := place_files (f := ⟨c.state.newName settings t, batch⟩)
        fun g hg => (hlast g hg).2
      simp only [hplace, List.length_append, List.length_singleton]
      refine ⟨room_length settings h.ordered t, ?_⟩
      apply List.pairwise_append.mpr
      refine ⟨room_ordered settings h.ordered t, List.pairwise_singleton _ _, ?_⟩
      intro g hg f hf
      obtain rfl := List.mem_singleton.mp hf
      exact hlast g hg
  refine ⟨?_, hspool.1, hspool.2⟩
  simp only [Machine.next_events, executedBatches_append, sentBatches_append, drops_append,
    List.map_append]
  exact haccounted

/-- The re-posts of a tick are those of its drain, and it drops nothing or what the cap says. -/
theorem TickMove.events {out : RunnerProc × List SpoolEvent}
    (hmove : TickMove C settings t w out) :
    reposts out.2 = reposts (w.drain t).events ∧ sentFiles out.2 = sentFiles (w.drain t).events ∧
      (drops out.2 = [] ∨ drops out.2 = (w.room settings t).2) := by
  cases hmove with
  | idle state => exact ⟨rfl, rfl, .inl (drops_drain w t)⟩
  | sent state batch =>
    refine ⟨?_, ?_, .inl ?_⟩
    · exact List.filterMap_append.trans (List.append_nil _)
    · exact List.filterMap_append.trans (List.append_nil _)
    · rw [drops_append, drops_drain]
      rfl
  | kept state batch answer hspools hanswer =>
    refine ⟨?_, ?_, .inr ?_⟩
    · exact List.filterMap_append.trans
        ((congrArg _ (reposts_map_dropped _)).trans (List.append_nil _))
    · exact List.filterMap_append.trans
        ((congrArg _ (sentFiles_map_dropped _)).trans (List.append_nil _))
    · rw [drops_append, drops_drain]
      exact drops_map_dropped _

theorem SpoolKept.oldestFirst {c : Config RunnerProc SpoolEvent} (h : SpoolKept settings c)
    (t : Tick) :
    OldestFirst settings t c.state.spool.files (runOneTick C settings t c.state).2 := by
  obtain ⟨hreposts, hsent, hdrops⟩ := (runOneTick_move C settings t c.state).events
  have hload := loadOldestFirst_eq (t := t) h.ordered
  refine ⟨?_, ?_, ?_, ?_⟩
  · rw [hreposts, ← hload]
    exact drainSpool_order _ _ _ _
  · rw [hreposts]
    exact drainSpool_stops _ _ _ _
  · rw [hreposts, ← hload]
    exact drainSpool_all _ _ _ _
  · rw [hsent, ← drain_files]
    rcases hdrops with hnone | hroom
    · exact .inl hnone
    · rw [hroom, room_dropped settings h.ordered]
      have hleft : (c.state.drain t).spool.files.length ≤ settings.spoolMaxFiles := by
        rw [drain_files]
        exact Nat.le_trans (List.length_filter_le _ _) h.withinCap
      rcases Nat.lt_or_ge (c.state.drain t).spool.files.length settings.spoolMaxFiles with hlt | hge
      · left
        rw [Nat.sub_eq_zero_of_le hlt]
        exact List.take_zero
      · have hcap : (c.state.drain t).spool.files.length = settings.spoolMaxFiles := by omega
        right
        refine ⟨_, rfl, hcap, ?_⟩
        rw [hcap, Nat.add_sub_cancel_left]

theorem spoolKept_of_fresh {acts : List RunnerAct}
    (hfresh : (runnerLoop C settings).Along (Fresh C settings) (runnerLoop C settings).begin_ acts) :
    SpoolKept settings ((runnerLoop C settings).after acts) := by
  refine Machine.along_induct (runnerLoop C settings) ?_ ?_ hfresh
  · intro c a h ha
    cases a with
    | tick t => exact h.tick C settings ha
    | restart =>
      refine ⟨?_, h.withinCap, h.ordered⟩
      simpa [Machine.next, runnerLoop] using h.accounted
  · exact ⟨List.Perm.refl _, Nat.zero_le _, List.Pairwise.nil⟩

/-- **Results are lost only to the cap.** In every run whose spool writes are all fresh, each
executed batch was accepted by central, is in the spool, or was dropped; the spool is within
its cap; and every tick re-posts the oldest file first, up to the first failure, and drops the
oldest file only when the spool is full. -/
theorem spool_oldest_first (acts : List RunnerAct)
    (hfresh : (runnerLoop C settings).Along (Fresh C settings) (runnerLoop C settings).begin_ acts) :
    let c := (runnerLoop C settings).after acts
    (executedBatches c.events).Perm (sentBatches c.events ++
        (c.state.spool.files.map (·.batch) ++ (drops c.events).map (·.batch))) ∧
      c.state.spool.files.length ≤ settings.spoolMaxFiles ∧
      ∀ before t later, acts = before ++ .tick t :: later →
        OldestFirst settings t ((runnerLoop C settings).after before).state.spool.files
          (runOneTick C settings t ((runnerLoop C settings).after before).state).2 := by
  have hkept := spoolKept_of_fresh C settings hfresh
  refine ⟨hkept.accounted, hkept.withinCap, ?_⟩
  intro before t later hsplit
  subst hsplit
  have hbefore := ((runnerLoop C settings).along_append _ _ _ _).mp hfresh
  exact (spoolKept_of_fresh C settings hbefore.1).oldestFirst C settings t

end Kept

/-- A tick of a runner with one item, under one answer of the uplink. -/
def smallTick (epochMs : Nat) (answer : PostAnswer) : Tick where
  readable := fun _ => true
  repost := fun _ => answer
  fetch := .assignment ⟨"v1", [smallItem "net.write" "a"]⟩
  env := fun _ => smallEnv
  handler := fun _ _ => .returned (.obj [])
  post := answer
  epochMs := epochMs
  uuid := []

def smallSettings : RunnerSettings := ⟨"r", 2, by decide⟩

/-- Two failed posts of one process. -/
def smallRun (epochMs epochMs' : Nat) : List RunnerAct :=
  [.tick (smallTick epochMs .failed), .tick (smallTick epochMs' .failed)]

theorem spool_oldest_first_small :
    ((runnerLoop plainCrypto smallSettings).after (smallRun 1000 2000)).state.spool.files.length ≤
      2 := by
  have hfresh : (runnerLoop plainCrypto smallSettings).Along (Fresh plainCrypto smallSettings)
      (runnerLoop plainCrypto smallSettings).begin_ (smallRun 1000 2000) := by
    refine ⟨?_, ?_, trivial⟩
    · intro _ f hf
      cases hf
    · intro _ f hf
      have hname := List.mem_map_of_mem (f := SpoolFile.name) hf
      revert hname
      generalize f.name = name
      revert name
      decide +kernel
  exact (spool_oldest_first plainCrypto smallSettings (smallRun 1000 2000) hfresh).2.1

/-- Two batches are written, the second one under a clock that was put back; the next drain posts
the second one first. -/
theorem newer_reposted_first : ∃ settings before t,
    ¬OldestFirst settings t ((runnerLoop plainCrypto settings).after before).state.spool.files
      (runOneTick plainCrypto settings t
        ((runnerLoop plainCrypto settings).after before).state).2 := by
  refine ⟨smallSettings, smallRun 2000 1000, smallTick 3000 .accepted, ?_⟩
  intro h
  have hnames := h.order.map (·.name)
  revert hnames
  decide +kernel

end Meho.Runner
