import Mathlib.Algebra.GroupWithZero.Nat
import Mathlib.Data.List.Induction
import Mathlib.Data.List.Sort
import Meho.Gateway.Queue
import Meho.Lib.Index

/- The alarm on remote writes nobody reported (gateway/unreported_mint.py).

A sweep takes the advisory lock, selects the expired remote writes without a
result, flips each one's alarm flag with a conditional update, commits, and
then writes one security row for each flip it won. Any number of replicas sweep
beside the command queue. A sweep is a process here:

  selecting   it has the lock; the step is the SELECT.
  flipping    the step is the updates and the commit. An update holds its row
              until the commit, so nothing is written to a row in between.
  auditing    the step writes the next security row, in a transaction of its
              own. A write that fails is logged and the sweep goes on.

A sweep may be gone at any point; a crash takes the lock with it. Without
PostgreSQL there is no lock (`advisory`): nothing below needs one. A flip whose
security row will never be written, because the write failed or the sweep is
gone, is reported as `auditLost`.

`alarm_sweeps` is what holds of every run. A lost write leaves a flip without a
row: `flip_without_row`.

Correspondence: the candidates' `SELECT` ↔ `unreportedMint` and `candidates`, the
conditional `UPDATE` ↔ `flipAlarm`, `_run_one_tick` ↔ `flipAll` and the steps of
`Sweep`, `_audit_alarms` ↔ the step of `auditing`. -/
namespace Meho.Gateway
open Meho.Lib
open Meho.Approval (Params)

/-! ## Flips -/

/-- A remote write past its deadline, without a result and without an alarm. -/
def unreportedMint (now : Time) (c : GatewayCommand) : Bool :=
  isRemoteWrite c.safetyLevel && c.consumedAt.isNone && decide (c.expiresAt < now) &&
    c.unreportedAlarmAt.isNone

/-- What a sweep reads of a row. -/
structure Candidate where
  id : Nat
  tenantId : Nat
  runnerId : String
  opId : String
  expiresAt : Time

/-- The rows to flip, the longest expired first. -/
def candidates (now : Time) (commands : List GatewayCommand) : List Candidate :=
  ((commands.zipIdx.filter fun e => unreportedMint now e.1).map fun e =>
    (⟨e.2, e.1.tenantId, e.1.runnerId, e.1.opId, e.1.expiresAt⟩ : Candidate)).insertionSort
      fun a b => a.expiresAt ≤ b.expiresAt

/-- The conditional update of one row. -/
def flipAlarm (now : Time) (id : Nat) (commands : List GatewayCommand) :
    Option (List GatewayCommand) :=
  match commands[id]? with
  | some c =>
    if c.unreportedAlarmAt.isNone then
      some (commands.set id { c with unreportedAlarmAt := some now })
    else none
  | none => none

/-- The updates of one sweep: the table after them, and the flips it won. -/
def flipAll (now : Time) : List Candidate → List GatewayCommand →
    List GatewayCommand × List Candidate
  | [], commands => (commands, [])
  | x :: xs, commands =>
    match flipAlarm now x.id commands with
    | some commands' =>
      let rest := flipAll now xs commands'
      (rest.1, x :: rest.2)
    | none => flipAll now xs commands

/-! ## The machine -/

/-- One security row: path `gateway.command.unreported_mint`, operator
`system:unreported-mint-alarm`. -/
structure AlarmAuditRow where
  tenantId : Nat
  commandId : Nat
  runner : String
  opId : String
  lapse : Time

/-- A sweep, by the statement it is before. -/
inductive Sweep where
  | selecting (now : Time)
  | flipping (now : Time) (rows : List Candidate)
  | auditing (now : Time) (won : List Candidate)
  | done

/-- The flips a sweep still has to write a row for. -/
def Sweep.due : Sweep → List Nat
  | .auditing _ won => won.map (·.id)
  | _ => []

/-- The queue, the sweeps and the alarm's audit rows. -/
structure AlarmWorld where
  queue : World
  sweeps : List Sweep
  holder : Option Nat
  audit : List AlarmAuditRow

/-- A step of the queue, or a new sweep and its next statement. -/
inductive AlarmAct where
  | queue (a : Act)
  | tick (now : Time)
  | advance (pid : Nat) (fails : Bool)
  | crash (pid : Nat)

/-- What a step of a sweep leaves behind. -/
inductive AlarmEvent where
  | flipped (id : Nat) (now : Time)
  | auditLost (id : Nat)

/-- The row whose flag is set. -/
def AlarmEvent.flips : AlarmEvent → Option Nat
  | .flipped id _ => some id
  | .auditLost _ => none

/-- The row whose security row is lost. -/
def AlarmEvent.loses : AlarmEvent → Option Nat
  | .flipped _ _ => none
  | .auditLost id => some id

variable (digest : Params → String) (advisory : Bool)

/-- The lock after its holder is gone. -/
def AlarmWorld.release (w : AlarmWorld) (pid : Nat) : Option Nat :=
  if w.holder = some pid then none else w.holder

/-- One step of a sweep. -/
def sweepStep (w : AlarmWorld) (pid : Nat) (fails : Bool) : Sweep → AlarmWorld × List AlarmEvent
  | .selecting now =>
    ({ w with sweeps := w.sweeps.set pid (.flipping now (candidates now w.queue.commands)) }, [])
  | .flipping now rows =>
    let out := flipAll now rows w.queue.commands
    ({ w with
        queue := { w.queue with commands := out.1 }
        sweeps := w.sweeps.set pid (.auditing now out.2)
        holder := w.release pid },
      out.2.map fun x => .flipped x.id now)
  | .auditing now (x :: won) =>
    if fails then
      ({ w with sweeps := w.sweeps.set pid (.auditing now won) }, [.auditLost x.id])
    else
      ({ w with
          sweeps := w.sweeps.set pid (.auditing now won)
          audit := w.audit ++ [⟨x.tenantId, x.id, x.runnerId, x.opId, now - x.expiresAt⟩] }, [])
  | .auditing _ [] => ({ w with sweeps := w.sweeps.set pid .done }, [])
  | .done => (w, [])

/-- One action. A tick that does not get the lock is over. -/
def alarmStep (w : AlarmWorld) : AlarmAct → AlarmWorld × List AlarmEvent
  | .queue a => ({ w with queue := (worldStep digest w.queue a).1 }, [])
  | .tick now =>
    if advisory && w.holder.isSome then (w, [])
    else
      ({ w with
          sweeps := w.sweeps ++ [.selecting now]
          holder := if advisory then some w.sweeps.length else none }, [])
  | .advance pid fails =>
    match w.sweeps[pid]? with
    | some p => sweepStep w pid fails p
    | none => (w, [])
  | .crash pid =>
    match w.sweeps[pid]? with
    | some p =>
      ({ w with sweeps := w.sweeps.set pid .done, holder := w.release pid },
        p.due.map .auditLost)
    | none => (w, [])

/-- The command queue with its alarm sweeps. -/
def alarmQueue : Machine AlarmWorld AlarmAct AlarmEvent :=
  ⟨⟨⟨[], [], []⟩, [], none, []⟩, alarmStep digest advisory⟩

/-! ## What holds of every run -/

/-- The flag of the row is set. -/
def alarmed (w : AlarmWorld) (id : Nat) : Bool :=
  tableOn (fun c => c.unreportedAlarmAt.isSome) w.queue.commands id

/-- The sweep `pid` took its SELECT at `now`, and in the table it read the command was an expired
remote write without a result and without an alarm. -/
def SelectedDue (pid id : Nat) (now : Time) : List AlarmAct → Prop :=
  Since fun before a => (∃ fails, a = .advance pid fails) ∧
    ((alarmQueue digest advisory).after before).state.sweeps[pid]? = some (.selecting now) ∧
    ∃ c, ((alarmQueue digest advisory).after before).state.queue.commands[id]? = some c ∧
      isRemoteWrite c.safetyLevel = true ∧ c.consumedAt = none ∧ c.expiresAt < now ∧
      c.unreportedAlarmAt = none

/-- A sweep set the flag of the command by a step of its own, after it had selected it. -/
def FlippedDue (id : Nat) (now : Time) : List AlarmAct → Prop :=
  Since fun before a => ∃ pid fails, a = .advance pid fails ∧
    .flipped id now ∈
      (alarmStep digest advisory ((alarmQueue digest advisory).after before).state a).2 ∧
    SelectedDue digest advisory pid id now before

/-- The security rows of a command. -/
def auditRows (w : AlarmWorld) (id : Nat) : Nat := w.audit.countP fun row => row.commandId = id

/-- The security rows of a command that sweeps still have to write. -/
def auditsDue (w : AlarmWorld) (id : Nat) : Nat := (w.sweeps.map fun p => p.due.count id).sum

/-- What every run of queue and sweeps keeps. -/
structure AlarmInv (acts : List AlarmAct) : Prop where
  latched : Latched AlarmEvent.flips (alarmed ((alarmQueue digest advisory).after acts).state)
    ((alarmQueue digest advisory).after acts).events
  selected : ∀ pid now rows,
    ((alarmQueue digest advisory).after acts).state.sweeps[pid]? = some (.flipping now rows) →
      ∀ x ∈ rows, SelectedDue digest advisory pid x.id now acts
  flipped : ∀ id now, .flipped id now ∈ ((alarmQueue digest advisory).after acts).events →
    FlippedDue digest advisory id now acts
  balance : ∀ id, auditRows ((alarmQueue digest advisory).after acts).state id +
    auditsDue ((alarmQueue digest advisory).after acts).state id +
    flips AlarmEvent.loses id ((alarmQueue digest advisory).after acts).events =
    flips AlarmEvent.flips id ((alarmQueue digest advisory).after acts).events

/-! ## One sweep -/

theorem candidates_mem {now : Time} {commands : List GatewayCommand} {x : Candidate}
    (h : x ∈ candidates now commands) :
    ∃ c, commands[x.id]? = some c ∧ isRemoteWrite c.safetyLevel = true ∧ c.consumedAt = none ∧
      c.expiresAt < now ∧ c.unreportedAlarmAt = none := by
  have hmem := (List.perm_insertionSort _ _).mem_iff.mp h
  obtain ⟨e, he, rfl⟩ := List.mem_map.mp hmem
  obtain ⟨hin, hdue⟩ := List.mem_filter.mp he
  have hrow := List.mem_zipIdx_iff_getElem?.mp hin
  simp only [unreportedMint, Bool.and_eq_true, decide_eq_true_eq,
    Option.isNone_iff_eq_none] at hdue
  obtain ⟨⟨⟨hlevel, hopen⟩, hexpired⟩, hunset⟩ := hdue
  exact ⟨e.1, hrow, hlevel, hopen, hexpired, hunset⟩

/-- A flip closes the flag of a row that was not flagged. -/
theorem flipAlarm_latched {now : Time} {id : Nat} {commands commands' : List GatewayCommand}
    {events : List AlarmEvent} (h : flipAlarm now id commands = some commands')
    (hl : Latched AlarmEvent.flips (tableOn (fun c => c.unreportedAlarmAt.isSome) commands)
      events) :
    Latched AlarmEvent.flips (tableOn (fun c => c.unreportedAlarmAt.isSome) commands')
      (events ++ [.flipped id now]) := by
  unfold flipAlarm at h
  split at h
  · rename_i c hc
    split at h
    · rename_i hunset
      cases h
      refine hl.win hc ?_ rfl rfl
      rw [Option.isNone_iff_eq_none.mp hunset]
      rfl
    · cases h
  · cases h

/-- The updates of a sweep: each one a flip, or nothing. -/
theorem flipAll_latched (now : Time) (rows : List Candidate) :
    ∀ (commands : List GatewayCommand) (events : List AlarmEvent),
      Latched AlarmEvent.flips (tableOn (fun c => c.unreportedAlarmAt.isSome) commands) events →
      Latched AlarmEvent.flips
        (tableOn (fun c => c.unreportedAlarmAt.isSome) (flipAll now rows commands).1)
        (events ++ (flipAll now rows commands).2.map fun x => .flipped x.id now) := by
  induction rows with
  | nil =>
    intro commands events h
    simpa [flipAll] using h
  | cons x rows ih =>
    intro commands events h
    unfold flipAll
    cases hflip : flipAlarm now x.id commands with
    | none => exact ih commands events h
    | some commands' =>
      have hrest := ih commands' _ (flipAlarm_latched hflip h)
      simpa using hrest

theorem flipAll_subset (now : Time) (rows : List Candidate) :
    ∀ (commands : List GatewayCommand), (flipAll now rows commands).2 ⊆ rows := by
  induction rows with
  | nil => exact fun _ => List.Subset.refl _
  | cons x rows ih =>
    intro commands
    unfold flipAll
    cases flipAlarm now x.id commands with
    | none => exact List.subset_cons_of_subset x (ih commands)
    | some commands' => exact List.cons_subset_cons x (ih commands')

/-- The queue leaves the flags alone; a new command has none. -/
theorem worldStep_alarmed (w : World) (a : Act) (id : Nat) :
    tableOn (fun c => c.unreportedAlarmAt.isSome) (worldStep digest w a).1.commands id =
      tableOn (fun c => c.unreportedAlarmAt.isSome) w.commands id := by
  by_cases henqueue : ∃ args now, a = .enqueue args now
  · obtain ⟨args, now, rfl⟩ := henqueue
    exact tableOn_snoc rfl id
  · refine tableOn_of_map (fun c : GatewayCommand => c.unreportedAlarmAt) Option.isSome ?_ id
    exact worldStep_alarm digest w fun args now heq => henqueue ⟨args, now, heq⟩

/-! ## Counting what is due -/

/-- A sum over the processes when one of them moves. -/
theorem sum_map_set {α : Type} (f : α → Nat) {l : List α} {i : Nat} {a : α} (b : α)
    (h : l[i]? = some a) : ((l.set i b).map f).sum + f a = (l.map f).sum + f b := by
  induction l generalizing i with
  | nil => cases h
  | cons c l ih =>
    cases i with
    | zero =>
      cases h
      simp only [List.set_cons_zero, List.map_cons, List.sum_cons]
      omega
    | succ i =>
      have hrest := ih h
      simp only [List.set_cons_succ, List.map_cons, List.sum_cons]
      omega

theorem auditsDue_set {w : AlarmWorld} (w' : AlarmWorld) {pid : Nat} {p p' : Sweep} (id : Nat)
    (hp : w.sweeps[pid]? = some p) (hw : w'.sweeps = w.sweeps.set pid p') :
    auditsDue w' id + p.due.count id = auditsDue w id + p'.due.count id := by
  unfold auditsDue
  rw [hw]
  exact sum_map_set (fun p => p.due.count id) p' hp

theorem flips_flipped (id : Nat) (now : Time) (won : List Candidate) :
    flips AlarmEvent.flips id (won.map fun x => .flipped x.id now) =
      (won.map (·.id)).count id := by
  induction won with
  | nil => rfl
  | cons x won ih =>
    simp only [List.map_cons, List.count_cons]
    rw [← ih]
    unfold flips
    rw [List.countP_cons]
    by_cases hid : x.id = id
    · simp [AlarmEvent.flips, hid]
    · simp [AlarmEvent.flips, hid]

theorem loses_flipped (id : Nat) (now : Time) (won : List Candidate) :
    flips AlarmEvent.loses id (won.map fun x => .flipped x.id now) = 0 := by
  refine flips_eq_zero _ fun e he => ?_
  obtain ⟨x, -, rfl⟩ := List.mem_map.mp he
  rfl

theorem flips_lost (id : Nat) (ids : List Nat) :
    flips AlarmEvent.flips id (ids.map .auditLost) = 0 := by
  refine flips_eq_zero _ fun e he => ?_
  obtain ⟨x, -, rfl⟩ := List.mem_map.mp he
  rfl

theorem loses_lost (id : Nat) (ids : List Nat) :
    flips AlarmEvent.loses id (ids.map .auditLost) = ids.count id := by
  induction ids with
  | nil => rfl
  | cons x ids ih =>
    simp only [List.map_cons, List.count_cons]
    rw [← ih]
    unfold flips
    rw [List.countP_cons]
    by_cases hid : x = id
    · simp [AlarmEvent.loses, hid]
    · simp [AlarmEvent.loses, hid]

/-- A step keeps the balance: what is due is written, lost, or due because it was just
flipped. -/
structure Balanced (w w' : AlarmWorld) (es : List AlarmEvent) (id : Nat) : Prop where
  step : auditRows w' id + auditsDue w' id + flips AlarmEvent.loses id es =
    auditRows w id + auditsDue w id + flips AlarmEvent.flips id es

theorem sweepStep_balanced {w : AlarmWorld} {pid : Nat} {p : Sweep} (fails : Bool)
    (hp : w.sweeps[pid]? = some p) (id : Nat) :
    Balanced w (sweepStep w pid fails p).1 (sweepStep w pid fails p).2 id := by
  cases p with
  | selecting now =>
    have hdue := auditsDue_set (sweepStep w pid fails (.selecting now)).1 id hp rfl
    refine ⟨?_⟩
    change auditRows w id + _ + 0 = auditRows w id + _ + 0
    simp only [Sweep.due, List.count_nil] at hdue
    omega
  | flipping now rows =>
    have hdue := auditsDue_set (sweepStep w pid fails (.flipping now rows)).1 id hp rfl
    refine ⟨?_⟩
    change auditRows w id + _ + flips AlarmEvent.loses id (List.map _ _) =
      auditRows w id + _ + flips AlarmEvent.flips id (List.map _ _)
    -- every command that flips becomes an audit row that is due
    rw [flips_flipped, loses_flipped]
    simp only [Sweep.due, List.count_nil] at hdue
    omega
  | auditing now won =>
    cases won with
    | nil =>
      have hdue := auditsDue_set (sweepStep w pid fails (.auditing now [])).1 id hp rfl
      refine ⟨?_⟩
      change auditRows w id + _ + 0 = auditRows w id + _ + 0
      simp only [Sweep.due, List.map_nil, List.count_nil] at hdue
      omega
    | cons x won =>
      cases fails with
      | true =>
        have hdue := auditsDue_set (sweepStep w pid true (.auditing now (x :: won))).1 id
          hp rfl
        refine ⟨?_⟩
        change auditRows w id + _ + flips AlarmEvent.loses id ([x.id].map .auditLost) =
          auditRows w id + _ + flips AlarmEvent.flips id ([x.id].map .auditLost)
        rw [flips_lost, loses_lost]
        simp only [Sweep.due, List.map_cons, List.count_cons, List.count_nil] at hdue ⊢
        omega
      | false =>
        have hdue := auditsDue_set (sweepStep w pid false (.auditing now (x :: won))).1 id
          hp rfl
        have hrows : auditRows (sweepStep w pid false (.auditing now (x :: won))).1 id =
            auditRows w id + [x.id].count id := by
          -- an audit row that was due is written
          simp [auditRows, sweepStep, List.countP_append, List.countP_cons, List.count_cons]
        refine ⟨?_⟩
        change _ + _ + 0 = auditRows w id + _ + 0
        rw [hrows]
        simp only [Sweep.due, List.map_cons, List.count_cons, List.count_nil] at hdue ⊢
        omega
  | done => exact ⟨rfl⟩

theorem alarmStep_balanced (w : AlarmWorld) (a : AlarmAct) (id : Nat) :
    Balanced w (alarmStep digest advisory w a).1 (alarmStep digest advisory w a).2 id := by
  cases a with
  | queue a => exact ⟨rfl⟩
  | tick now =>
    unfold alarmStep
    simp only
    split
    · exact ⟨rfl⟩
    · refine ⟨?_⟩
      simp [auditsDue, auditRows, flips, Sweep.due]
  | advance pid fails =>
    unfold alarmStep
    simp only
    cases hp : w.sweeps[pid]? with
    | none => exact ⟨rfl⟩
    | some p => exact sweepStep_balanced fails hp id
  | crash pid =>
    unfold alarmStep
    simp only
    cases hp : w.sweeps[pid]? with
    | none => exact ⟨rfl⟩
    | some p =>
      refine ⟨?_⟩
      simp only
      rw [flips_lost, loses_lost]
      have hdue := sum_map_set (fun p => p.due.count id) Sweep.done hp
      have hnone : Sweep.done.due.count id = 0 := rfl
      simp only [auditsDue, auditRows]
      omega

/-! ## One action -/

section Actions
variable {digest advisory} {w : AlarmWorld}

theorem alarmStep_latched {events : List AlarmEvent} (a : AlarmAct)
    (h : Latched AlarmEvent.flips (alarmed w) events) :
    Latched AlarmEvent.flips (alarmed (alarmStep digest advisory w a).1)
      (events ++ (alarmStep digest advisory w a).2) := by
  have hquiet : ∀ e ∈ ([] : List AlarmEvent), e.flips = none := fun e he => by cases he
  cases a with
  | queue a => exact h.keep hquiet (worldStep_alarmed digest w.queue a)
  | tick now =>
    unfold alarmStep
    simp only
    split
    · exact h.keep hquiet fun _ => rfl
    · exact h.keep hquiet fun _ => rfl
  | advance pid fails =>
    unfold alarmStep
    simp only
    split
    · rename_i p _
      cases p with
      | selecting now => exact h.keep hquiet fun _ => rfl
      -- the only step of a sweep that marks a command
      | flipping now rows => exact flipAll_latched now rows _ events h
      | auditing now won =>
        cases won with
        | nil => exact h.keep hquiet fun _ => rfl
        | cons x won =>
          cases fails with
          | true =>
            refine h.keep ?_ fun _ => rfl
            intro e he
            rw [List.mem_singleton.mp he]
            rfl
          | false => exact h.keep hquiet fun _ => rfl
      | done => exact h.keep hquiet fun _ => rfl
    · exact h.keep hquiet fun _ => rfl
  | crash pid =>
    unfold alarmStep
    simp only
    split
    · refine h.keep ?_ fun _ => rfl
      intro e he
      obtain ⟨id, -, rfl⟩ := List.mem_map.mp he
      rfl
    · exact h.keep hquiet fun _ => rfl

/-- The sweep that a step makes ready to flip is the one that took it: it has just selected. -/
theorem sweepStep_flipping {pid i : Nat} {fails : Bool} {p : Sweep} {now : Time}
    {rows : List Candidate}
    (h : (sweepStep w pid fails p).1.sweeps[i]? = some (.flipping now rows)) :
    w.sweeps[i]? = some (.flipping now rows) ∨
      i = pid ∧ p = .selecting now ∧ rows = candidates now w.queue.commands := by
  have hother {p' : Sweep} (hp' : ∀ now rows, p' ≠ .flipping now rows)
      (hset : (w.sweeps.set pid p')[i]? = some (.flipping now rows)) :
      w.sweeps[i]? = some (.flipping now rows) := by
    obtain ⟨-, heq⟩ | ⟨-, hold⟩ := getElem?_set_cases hset
    · exact absurd heq.symm (hp' now rows)
    · exact hold
  cases p with
  | selecting now' =>
    obtain ⟨rfl, heq⟩ | ⟨-, hold⟩ := getElem?_set_cases h
    · cases heq
      exact .inr ⟨rfl, rfl, rfl⟩
    · exact .inl hold
  | flipping now' rows' => exact .inl (hother (fun _ _ heq => by cases heq) h)
  | auditing now' won =>
    cases won with
    | nil => exact .inl (hother (fun _ _ heq => by cases heq) h)
    | cons x won =>
      cases fails with
      | true => exact .inl (hother (fun _ _ heq => by cases heq) h)
      | false => exact .inl (hother (fun _ _ heq => by cases heq) h)
  | done => exact .inl h

/-- A sweep that is about to flip was about to flip before, or has just selected. -/
theorem alarmStep_flipping {a : AlarmAct} {pid : Nat} {now : Time} {rows : List Candidate}
    (h : (alarmStep digest advisory w a).1.sweeps[pid]? = some (.flipping now rows)) :
    w.sweeps[pid]? = some (.flipping now rows) ∨
      (∃ fails, a = .advance pid fails) ∧ w.sweeps[pid]? = some (.selecting now) ∧
        rows = candidates now w.queue.commands := by
  cases a with
  | queue a => exact .inl h
  | tick now' =>
    unfold alarmStep at h
    simp only at h
    split at h
    · exact .inl h
    · obtain hold | ⟨-, hnew⟩ := getElem?_snoc h
      · exact .inl hold
      · cases hnew
  | advance pid' fails =>
    unfold alarmStep at h
    simp only at h
    split at h
    · rename_i p hp
      obtain hold | ⟨rfl, rfl, hrows⟩ := sweepStep_flipping h
      · exact .inl hold
      · exact .inr ⟨⟨fails, rfl⟩, hp, hrows⟩
    · exact .inl h
  | crash pid' =>
    unfold alarmStep at h
    simp only at h
    split at h
    · obtain ⟨-, heq⟩ | ⟨-, hold⟩ := getElem?_set_cases h
      · cases heq
      · exact .inl hold
    · exact .inl h

/-- A flip is one of the candidates of the sweep that took the step. -/
theorem alarmStep_flipped {a : AlarmAct} {id : Nat} {now : Time}
    (h : .flipped id now ∈ (alarmStep digest advisory w a).2) :
    ∃ pid fails rows, a = .advance pid fails ∧ w.sweeps[pid]? = some (.flipping now rows) ∧
      ∃ x ∈ rows, x.id = id := by
  cases a with
  | queue a => cases h
  | tick now' =>
    unfold alarmStep at h
    simp only at h
    split at h <;> cases h
  | advance pid fails =>
    unfold alarmStep at h
    simp only at h
    split at h
    · rename_i p hp
      cases p with
      | selecting now' => cases h
      | flipping now' rows =>
        obtain ⟨x, hx, heq⟩ := List.mem_map.mp h
        cases heq
        exact ⟨pid, fails, rows, rfl, hp, x, flipAll_subset now rows _ hx, rfl⟩
      | auditing now' won =>
        cases won with
        | nil => cases h
        | cons x won =>
          cases fails with
          | true => cases List.mem_singleton.mp h
          | false => cases h
      | done => cases h
    · cases h
  | crash pid =>
    unfold alarmStep at h
    simp only at h
    split at h
    · obtain ⟨x, -, heq⟩ := List.mem_map.mp h
      cases heq
    · cases h

end Actions

/-! ## Every run -/

theorem alarmInv_begin : AlarmInv digest advisory [] := by
  refine ⟨Latched.nil fun _ => rfl, fun _ _ _ h => ?_, fun _ _ h => ?_, fun _ => rfl⟩
  · cases h
  · cases h

theorem AlarmInv.next {acts : List AlarmAct} (h : AlarmInv digest advisory acts) (a : AlarmAct) :
    AlarmInv digest advisory (acts ++ [a]) := by
  refine ⟨?_, ?_, ?_, ?_⟩
  · rw [Machine.after_snoc]
    exact alarmStep_latched a h.latched
  · intro pid now rows hmem x hx
    rw [Machine.after_snoc] at hmem
    obtain hold | ⟨hact, hselecting, rfl⟩ := alarmStep_flipping hmem
    · exact (h.selected pid now rows hold x hx).snoc a
    · exact Since.last ⟨hact, hselecting, candidates_mem hx⟩
  · intro id now hmem
    rw [Machine.after_snoc, Machine.next_events] at hmem
    obtain hold | hnew := List.mem_append.mp hmem
    · exact (h.flipped id now hold).snoc a
    · obtain ⟨pid, fails, rows, rfl, hrows, x, hx, rfl⟩ := alarmStep_flipped hnew
      exact Since.last ⟨pid, fails, rfl, hnew, h.selected pid now rows hrows x hx⟩
  · intro id
    have hbefore := h.balance id
    have hstep := (alarmStep_balanced digest advisory
      ((alarmQueue digest advisory).after acts).state a id).step
    rw [Machine.after_snoc, Machine.next_events, flips_append, flips_append]
    change auditRows (alarmStep digest advisory _ a).1 id +
      auditsDue (alarmStep digest advisory _ a).1 id +
      (_ + flips AlarmEvent.loses id (alarmStep digest advisory _ a).2) =
      _ + flips AlarmEvent.flips id (alarmStep digest advisory _ a).2
    omega

theorem alarmInv_history (acts : List AlarmAct) : AlarmInv digest advisory acts := by
  induction acts using List.reverseRecOn with
  | nil => exact alarmInv_begin digest advisory
  | append_singleton acts a ih => exact ih.next digest advisory a

/-- **The alarm sweeps.** In every run of sweeps beside the command queue: the alarm flag of a
command is set at most once; only for a remote write that was expired and without a result
when the sweep that sets it selected it; and a flip leaves one security row, once its sweep
has written it, unless the write of that row fails or the sweep is gone before it. -/
theorem alarm_sweeps (acts : List AlarmAct) (id : Nat) :
    flips AlarmEvent.flips id ((alarmQueue digest advisory).after acts).events ≤ 1 ∧
    (alarmed ((alarmQueue digest advisory).after acts).state id = true ↔
      ∃ now, .flipped id now ∈ ((alarmQueue digest advisory).after acts).events) ∧
    (∀ now, .flipped id now ∈ ((alarmQueue digest advisory).after acts).events →
      FlippedDue digest advisory id now acts) ∧
    auditRows ((alarmQueue digest advisory).after acts).state id ≤
      flips AlarmEvent.flips id ((alarmQueue digest advisory).after acts).events ∧
    (auditsDue ((alarmQueue digest advisory).after acts).state id = 0 →
      flips AlarmEvent.loses id ((alarmQueue digest advisory).after acts).events = 0 →
      auditRows ((alarmQueue digest advisory).after acts).state id =
        flips AlarmEvent.flips id ((alarmQueue digest advisory).after acts).events) := by
  have hinv := alarmInv_history digest advisory acts
  have hbalance := hinv.balance id
  refine ⟨hinv.latched.at_most_once id, ?_, hinv.flipped id, ?_, ?_⟩
  · rw [hinv.latched.closed_iff id]
    constructor
    · rintro ⟨e, he, hflips⟩
      cases e with
      | flipped id' now =>
        cases hflips
        exact ⟨now, he⟩
      | auditLost id' => cases hflips
    · rintro ⟨now, he⟩
      exact ⟨_, he, rfl⟩
  · omega
  · intro hdue hlost
    omega

/-- A command nobody reports. -/
def unreportedCommand : EnqueueArgs :=
  ⟨1, "edge", "net.write", [], "svc", none, none, none, none, .caution⟩

/-- The write of the security row fails: the flag is set, the sweep is over, and there is no
row. -/
theorem flip_without_row :
    let run := (alarmQueue (fun _ => "") true).after
      [.queue (.enqueue unreportedCommand 0), .tick (seconds 301), .advance 0 false,
        .advance 0 false, .advance 0 true, .advance 0 false]
    alarmed run.state 0 = true ∧ auditRows run.state 0 = 0 ∧ auditsDue run.state 0 = 0 ∧
      run.state.holder = none := by
  decide

end Meho.Gateway
