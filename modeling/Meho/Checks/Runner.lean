import Meho.Checks.Sensor
import Meho.Lib.History

/- The sensor runner on several replicas, and edits beside it (checks/runner.py).

Every replica has one loop. A tick reads the clock, takes the lock, claims the due
rows, and goes through them: it advances a row and commits, and keeps a snapshot of
it. Then it spawns the evaluations of its snapshots and ends. An evaluation runs the
operation, reads the clock, loads the row and commits its reading. Between any two of
these steps other replicas, other evaluations and edits may run.

No lock is modelled: whether a tick gets it, and which rows others hold, is part of
the action. So the runs are all that the locks allow and more.

Correspondence: `_SensorSnapshot` ↔ `SensorSnapshot`, `_IN_FLIGHT` ↔
`Replica.inFlight`, `_claim_and_spawn_due` ↔ the actions `tick`, `claim`, `row`
and `spawn`, `_evaluate_and_record` ↔ the actions `evaluate`, `load`, `write` and
`finish`, `edit_sensor` ↔ `edit`. `abort` ends a tick where an exception or the stop
of the process does; `skipRow` is the rollback of one row. -/
namespace Meho.Checks
open Meho.Lib
open Meho.Scheduler (NextFireAfter)

/-! ## States -/

/-- What an evaluation needs of a row. -/
structure SensorSnapshot where
  id : Nat
  settings : SensorSettings
  target : Option Dict
  /-- Not in the source: the instant that the tick took. -/
  instant : Time
  /-- Not in the source: the settings' edition. -/
  edition : Nat

def Sensor.snapshot (row : Sensor) (instant : Time) : SensorSnapshot :=
  ⟨row.id, row.settings, row.target, instant, row.edition⟩

/-- How far a tick is. -/
inductive TickStage where
  | idle
  | started (now : Time)
  | claimed (now : Time) (rows : List Sensor) (toDispatch : List SensorSnapshot)
  | spawning (toDispatch : List SensorSnapshot)

/-- The rows that a tick has claimed and not come to yet. -/
def TickStage.rows : TickStage → List Sensor
  | .claimed _ rows _ => rows
  | _ => []

/-- What a tick has taken and not spawned yet. -/
def TickStage.queue : TickStage → List SensorSnapshot
  | .claimed _ _ toDispatch => toDispatch
  | .spawning toDispatch => toDispatch
  | _ => []

/-- How far an evaluation is. -/
inductive EvaluationStage where
  | running
  | evaluated (outcome : AssertionOutcome) (evaluatedAt : Time)
  | loaded (outcome : AssertionOutcome) (evaluatedAt : Time) (row : Sensor)
  | written

/-- A claimed row on its way to a result. -/
structure Evaluation where
  snap : SensorSnapshot
  stage : EvaluationStage

/-- One process. -/
structure Replica where
  stage : TickStage
  inFlight : Nat → Option Evaluation

/-- The sensors and the replicas that evaluate them. -/
structure Runners where
  db : SensorDb
  replicas : Nat → Replica

/-- What the history of a run shows. -/
inductive RunnerEvent where
  /-- A tick has advanced the sensor and committed. -/
  | taken (sensorId : Nat) (instant : Time)
  /-- An evaluation was spawned for the instant. -/
  | dispatched (sensorId : Nat) (instant : Time)
  /-- The spawn was skipped: the sensor is being evaluated. -/
  | dropped (sensorId : Nat) (instant : Time)
  deriving DecidableEq, Repr

/-- A statement of one replica, or a call of the API. -/
inductive RunnerAct where
  | tick (p : Nat) (now : Time)
  | claim (p : Nat) (gotLock : Bool) (locked : List Nat)
  | row (p : Nat)
  | skipRow (p : Nat)
  | spawn (p : Nat)
  | abort (p : Nat)
  | evaluate (p sensorId : Nat) (outcome : AssertionOutcome) (evaluatedAt : Time)
  | load (p sensorId : Nat)
  | write (p sensorId : Nat)
  | finish (p sensorId : Nat)
  | edit (sensorId : Nat) (merged : SensorFields) (now : Time)
  | delete (sensorId : Nat)

namespace Runners

def setStage (s : Runners) (p : Nat) (stage : TickStage) : Runners :=
  { s with replicas := Function.update s.replicas p { s.replicas p with stage := stage } }

def setEvaluation (s : Runners) (p sensorId : Nat) (e : Option Evaluation) : Runners :=
  let inFlight := Function.update (s.replicas p).inFlight sensorId e
  { s with replicas := Function.update s.replicas p { s.replicas p with inFlight := inFlight } }

variable {s : Runners} {p : Nat}

@[simp] theorem setStage_self (stage : TickStage) :
    (s.setStage p stage).replicas p = ⟨stage, (s.replicas p).inFlight⟩ :=
  Function.update_self ..

@[simp] theorem setStage_of_ne {q : Nat} (h : q ≠ p) (stage : TickStage) :
    (s.setStage p stage).replicas q = s.replicas q :=
  Function.update_of_ne h ..

@[simp] theorem setEvaluation_self (sensorId : Nat) (e : Option Evaluation) :
    (s.setEvaluation p sensorId e).replicas p =
      ⟨(s.replicas p).stage, Function.update (s.replicas p).inFlight sensorId e⟩ :=
  Function.update_self ..

@[simp] theorem setEvaluation_of_ne {q : Nat} (h : q ≠ p) (sensorId : Nat)
    (e : Option Evaluation) : (s.setEvaluation p sensorId e).replicas q = s.replicas q :=
  Function.update_of_ne h ..

end Runners

/-! ## Steps -/

section Step
variable (nextFireAfter : NextFireAfter) (recordHistory : Bool)

/-- The next claimed row: left due if it is being evaluated, else advanced and committed. -/
def tickRow (s : Runners) (p : Nat) : Runners × List RunnerEvent :=
  match (s.replicas p).stage with
  | .claimed _ [] toDispatch => (s.setStage p (.spawning toDispatch), [])
  | .claimed now (row :: rows) toDispatch =>
    if ((s.replicas p).inFlight row.id).isSome then
      (s.setStage p (.claimed now rows toDispatch), [])
    else
      match advanceSensorNextFire nextFireAfter s.db row now with
      | .error _ =>
        ({ s with db := parkSensor s.db row.id }.setStage p (.claimed now rows toDispatch), [])
      | .ok none => (s.setStage p (.claimed now rows toDispatch), [])
      | .ok (some db) =>
        let instant := row.nextFireAt.getD now
        ({ s with db := db }.setStage p (.claimed now rows (toDispatch ++ [row.snapshot instant])),
          [.taken row.id instant])
  | _ => (s, [])

/-- The next evaluation, unless one of the sensor is in flight; or the end of the tick. -/
def tickSpawn (s : Runners) (p : Nat) : Runners × List RunnerEvent :=
  match (s.replicas p).stage with
  | .spawning [] => (s.setStage p .idle, [])
  | .spawning (snap :: rest) =>
    if ((s.replicas p).inFlight snap.id).isSome then
      (s.setStage p (.spawning rest), [.dropped snap.id snap.instant])
    else
      ((s.setStage p (.spawning rest)).setEvaluation p snap.id (some ⟨snap, .running⟩),
        [.dispatched snap.id snap.instant])
  | _ => (s, [])

/-- One step of an evaluation that is in flight. -/
def evaluationStep (s : Runners) (p sensorId : Nat) (f : Evaluation → Runners) : Runners :=
  match (s.replicas p).inFlight sensorId with
  | some e => f e
  | none => s

def runnerStep (s : Runners) : RunnerAct → Runners × List RunnerEvent
  | .tick p now =>
    match (s.replicas p).stage with
    | .idle => (s.setStage p (.started now), [])
    | _ => (s, [])
  | .claim p gotLock locked =>
    match (s.replicas p).stage with
    | .started now =>
      -- the tick's advisory lock; without it the tick ends
      if gotLock then (s.setStage p (.claimed now (claimDueSensors s.db now locked) []), [])
      else (s.setStage p .idle, [])
    | _ => (s, [])
  | .row p => tickRow nextFireAfter s p
  | .skipRow p =>
    match (s.replicas p).stage with
    | .claimed now (_ :: rows) toDispatch => (s.setStage p (.claimed now rows toDispatch), [])
    | _ => (s, [])
  | .spawn p => tickSpawn s p
  | .abort p => (s.setStage p .idle, [])
  | .evaluate p sensorId outcome evaluatedAt =>
    (evaluationStep s p sensorId fun e =>
      match e.stage with
      | .running => s.setEvaluation p sensorId (some ⟨e.snap, .evaluated outcome evaluatedAt⟩)
      | _ => s, [])
  | .load p sensorId =>
    (evaluationStep s p sensorId fun e =>
      match e.stage with
      | .evaluated outcome evaluatedAt =>
        match s.db.get e.snap.id with
        | some row => s.setEvaluation p sensorId (some ⟨e.snap, .loaded outcome evaluatedAt row⟩)
        -- the sensor was deleted while it was evaluated: nothing is written
        | none => s.setEvaluation p sensorId (some ⟨e.snap, .written⟩)
      | _ => s, [])
  | .write p sensorId =>
    (evaluationStep s p sensorId fun e =>
      match e.stage with
      | .loaded outcome evaluatedAt row =>
        { s with db := persistOutcome recordHistory s.db row outcome evaluatedAt }.setEvaluation p
          sensorId (some ⟨e.snap, .written⟩)
      | _ => s, [])
  | .finish p sensorId => (s.setEvaluation p sensorId none, [])
  | .edit sensorId merged now => ({ s with db := editSensor s.db sensorId merged now }, [])
  | .delete sensorId => ({ s with db := deleteSensor s.db sensorId }, [])

/-- No tick runs and nothing is in flight. -/
def restingReplica : Replica := ⟨.idle, fun _ => none⟩

/-- Several replicas over one table. -/
def runnerMachine (db : SensorDb) : Machine Runners RunnerAct RunnerEvent :=
  ⟨⟨db, fun _ => restingReplica⟩, runnerStep nextFireAfter recordHistory⟩

/-! ## What a step can do -/

/-- Every effect of an action, with its guards. -/
inductive RunnerMove (s : Runners) : RunnerAct → Runners → List RunnerEvent → Prop where
  | stay (a : RunnerAct) : RunnerMove s a s []
  | start (p : Nat) (now : Time) : RunnerMove s (.tick p now) (s.setStage p (.started now)) []
  | quit (a : RunnerAct) (p : Nat) : RunnerMove s a (s.setStage p .idle) []
  | claim (p : Nat) (now : Time) (gotLock : Bool) (locked : List Nat) :
    RunnerMove s (.claim p gotLock locked)
      (s.setStage p (.claimed now (claimDueSensors s.db now locked) [])) []
  | pass (a : RunnerAct) (p : Nat) (now : Time) (row : Sensor) (rows : List Sensor)
      (toDispatch : List SensorSnapshot)
      (hstage : (s.replicas p).stage = .claimed now (row :: rows) toDispatch) :
    RunnerMove s a (s.setStage p (.claimed now rows toDispatch)) []
  | park (p : Nat) (now : Time) (row : Sensor) (rows : List Sensor)
      (toDispatch : List SensorSnapshot)
      (hstage : (s.replicas p).stage = .claimed now (row :: rows) toDispatch) :
    RunnerMove s (.row p)
      ({ s with db := parkSensor s.db row.id }.setStage p (.claimed now rows toDispatch)) []
  | take (p : Nat) (now : Time) (row : Sensor) (rows : List Sensor)
      (toDispatch : List SensorSnapshot) (db : SensorDb)
      (hstage : (s.replicas p).stage = .claimed now (row :: rows) toDispatch)
      (hfree : (s.replicas p).inFlight row.id = none)
      (hadvance : advanceSensorNextFire nextFireAfter s.db row now = .ok (some db)) :
    RunnerMove s (.row p)
      ({ s with db := db }.setStage p
        (.claimed now rows (toDispatch ++ [row.snapshot (row.nextFireAt.getD now)])))
      [.taken row.id (row.nextFireAt.getD now)]
  | toSpawn (p : Nat) (now : Time) (toDispatch : List SensorSnapshot)
      (hstage : (s.replicas p).stage = .claimed now [] toDispatch) :
    RunnerMove s (.row p) (s.setStage p (.spawning toDispatch)) []
  | drop (p : Nat) (snap : SensorSnapshot) (rest : List SensorSnapshot)
      (hstage : (s.replicas p).stage = .spawning (snap :: rest))
      (hbusy : ((s.replicas p).inFlight snap.id).isSome = true) :
    RunnerMove s (.spawn p) (s.setStage p (.spawning rest)) [.dropped snap.id snap.instant]
  | spawn (p : Nat) (snap : SensorSnapshot) (rest : List SensorSnapshot)
      (hstage : (s.replicas p).stage = .spawning (snap :: rest)) :
    RunnerMove s (.spawn p)
      ((s.setStage p (.spawning rest)).setEvaluation p snap.id (some ⟨snap, .running⟩))
      [.dispatched snap.id snap.instant]
  | evaluate (p sensorId : Nat) (outcome : AssertionOutcome) (evaluatedAt : Time) (e : Evaluation)
      (hflight : (s.replicas p).inFlight sensorId = some e) (hrunning : e.stage = .running) :
    RunnerMove s (.evaluate p sensorId outcome evaluatedAt)
      (s.setEvaluation p sensorId (some ⟨e.snap, .evaluated outcome evaluatedAt⟩)) []
  | load (p sensorId : Nat) (outcome : AssertionOutcome) (evaluatedAt : Time) (e : Evaluation)
      (row : Sensor) (hflight : (s.replicas p).inFlight sensorId = some e)
      (hevaluated : e.stage = .evaluated outcome evaluatedAt)
      (hrow : s.db.get e.snap.id = some row) :
    RunnerMove s (.load p sensorId)
      (s.setEvaluation p sensorId (some ⟨e.snap, .loaded outcome evaluatedAt row⟩)) []
  | gone (p sensorId : Nat) (e : Evaluation)
      (hflight : (s.replicas p).inFlight sensorId = some e) :
    RunnerMove s (.load p sensorId) (s.setEvaluation p sensorId (some ⟨e.snap, .written⟩)) []
  | write (p sensorId : Nat) (outcome : AssertionOutcome) (evaluatedAt : Time) (e : Evaluation)
      (row : Sensor) (hflight : (s.replicas p).inFlight sensorId = some e)
      (hloaded : e.stage = .loaded outcome evaluatedAt row) :
    RunnerMove s (.write p sensorId)
      ({ s with db := persistOutcome recordHistory s.db row outcome evaluatedAt }.setEvaluation p
        sensorId (some ⟨e.snap, .written⟩)) []
  | finish (p sensorId : Nat) : RunnerMove s (.finish p sensorId) (s.setEvaluation p sensorId none) []
  | edit (sensorId : Nat) (merged : SensorFields) (now : Time) :
    RunnerMove s (.edit sensorId merged now)
      { s with db := editSensor s.db sensorId merged now } []
  | delete (sensorId : Nat) :
    RunnerMove s (.delete sensorId) { s with db := deleteSensor s.db sensorId } []

theorem tickRow_move (s : Runners) (p : Nat) :
    RunnerMove nextFireAfter recordHistory s (.row p) (tickRow nextFireAfter s p).1
      (tickRow nextFireAfter s p).2 := by
  unfold tickRow
  split
  · rename_i hstage
    exact .toSpawn p _ _ hstage
  · rename_i now row rows toDispatch hstage
    split
    · exact .pass _ p now row rows toDispatch hstage
    · rename_i hfree
      rw [Option.not_isSome_iff_eq_none] at hfree
      split
      · exact .park p now row rows toDispatch hstage
      · exact .pass _ p now row rows toDispatch hstage
      · rename_i db hadvance
        exact .take p now row rows toDispatch db hstage hfree hadvance
  · exact .stay _

theorem tickSpawn_move (s : Runners) (p : Nat) :
    RunnerMove nextFireAfter recordHistory s (.spawn p) (tickSpawn s p).1 (tickSpawn s p).2 := by
  unfold tickSpawn
  split
  · exact .quit _ p
  · rename_i snap rest hstage
    split
    · rename_i hbusy
      exact .drop p snap rest hstage hbusy
    · exact .spawn p snap rest hstage
  · exact .stay _

/-- Every step is a move. -/
theorem runnerStep_move (s : Runners) (a : RunnerAct) :
    RunnerMove nextFireAfter recordHistory s a (runnerStep nextFireAfter recordHistory s a).1
      (runnerStep nextFireAfter recordHistory s a).2 := by
  cases a with
  | tick p now =>
    simp only [runnerStep]
    split
    · exact .start p now
    · exact .stay _
  | claim p gotLock locked =>
    simp only [runnerStep]
    split
    · split
      · exact .claim p _ gotLock locked
      · exact .quit _ p
    · exact .stay _
  | row p => exact tickRow_move nextFireAfter recordHistory s p
  | skipRow p =>
    simp only [runnerStep]
    split
    · rename_i hstage
      exact .pass _ p _ _ _ _ hstage
    · exact .stay _
  | spawn p => exact tickSpawn_move nextFireAfter recordHistory s p
  | abort p => exact .quit _ p
  | evaluate p sensorId outcome evaluatedAt =>
    simp only [runnerStep, evaluationStep]
    split
    · rename_i e hflight
      split
      · rename_i hrunning
        exact .evaluate p sensorId outcome evaluatedAt e hflight hrunning
      · exact .stay _
    · exact .stay _
  | load p sensorId =>
    simp only [runnerStep, evaluationStep]
    split
    · rename_i e hflight
      split
      · rename_i hevaluated
        split
        · rename_i row hrow
          -- the row is read again before the write, as it is now
          exact .load p sensorId _ _ e row hflight hevaluated hrow
        · exact .gone p sensorId e hflight
      · exact .stay _
    · exact .stay _
  | write p sensorId =>
    simp only [runnerStep, evaluationStep]
    split
    · rename_i e hflight
      split
      · rename_i hloaded
        exact .write p sensorId _ _ e _ hflight hloaded
      · exact .stay _
    · exact .stay _
  | finish p sensorId => exact .finish p sensorId
  | edit sensorId merged now => exact .edit sensorId merged now
  | delete sensorId => exact .delete sensorId

end Step

end Meho.Checks
