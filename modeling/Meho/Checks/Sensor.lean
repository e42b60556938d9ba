import Meho.Scheduler.Loop

/- Sensors: the row, and the statements that move it (checks/repository.py,
checks/sensor_edit.py).

A sensor runs one read-only operation on a schedule. `nextFireAt` is when it is due;
the claim reads the rows that are, and the advance moves the column on if it still
holds what the claim read. A reading goes through the confirmation gate: it is
committed at once, or held until enough readings in a row agree. An edit writes the
row, drops what the gate holds and makes the sensor due at once.

Correspondence: `record_sensor_result` ↔ `Sensor.record` and `flushRecord`,
`_changed_fields` and `_apply` of an edit ↔ `editSensor`; what is not listed keeps its
name. `next_fire_after` asks a library for the next match of a cron expression; it is a
parameter. A row's last value, its evidence and the reason it was parked are read by
nothing here and left out. -/
namespace Meho.Checks
open Meho.Lib
open Meho.Scheduler (NextFireAfter)

/-! ## The row -/

inductive CheckState where
  | ok
  | degraded
  | critical
  | unknown
  | skip
  deriving DecidableEq, Repr

inductive SensorStatus where
  | active
  | paused
  deriving DecidableEq, Repr

inductive SensorSeverity where
  | degraded
  | critical
  deriving DecidableEq, Repr

/-- `_INTERVAL_SECONDS_MIN`. -/
def intervalSecondsMin : Nat := 5

/-- When a sensor is due, with its checked bound. -/
inductive SensorCadence where
  | interval (intervalSeconds : Nat) (bound : intervalSecondsMin ≤ intervalSeconds)
      (timezone : String)
  | cron (cronExpr : String) (timezone : String)
  deriving DecidableEq

/-- What is measured and how it is judged, as far as an edit can change it. -/
structure SensorSettings where
  connectorId : String
  opId : String
  params : Dict
  assertion : Dict
  deriving BEq

/-- `_EDITABLE_FIELDS`. -/
structure SensorFields where
  name : String
  settings : SensorSettings
  cadence : SensorCadence
  severity : SensorSeverity
  deriving BEq

/-- One row of `sensor`. -/
structure Sensor extends SensorFields where
  id : Nat
  target : Option Dict
  status : SensorStatus
  nextFireAt : Option Time
  forSeconds : Nat
  retryTimes : Nat
  retryBackoffSeconds : Nat
  lastState : CheckState
  lastEvaluatedAt : Option Time
  stateSince : Option Time
  pendingState : Option CheckState
  pendingCount : Nat
  /-- Not a column: how many edits have changed the settings. -/
  edition : Nat

/-- One row of `sensor_result`. -/
structure SensorResult where
  sensorId : Nat
  evaluatedAt : Time
  state : CheckState
  value : Json
  evidence : Dict

structure SensorDb where
  sensors : List Sensor
  results : List SensorResult

def SensorDb.get (db : SensorDb) (sensorId : Nat) : Option Sensor :=
  db.sensors.find? (·.id = sensorId)

/-- `UPDATE sensor SET .. WHERE id = sensorId`. -/
def SensorDb.update (db : SensorDb) (sensorId : Nat) (f : Sensor → Sensor) : SensorDb :=
  { db with sensors := db.sensors.map fun row => if row.id = sensorId then f row else row }

/-! ## The schedule -/

def Sensor.isDue (row : Sensor) (now : Time) : Bool :=
  row.status = .active && row.nextFireAt.any (· ≤ now)

/-- `_CLAIM_BATCH_LIMIT`. -/
def claimBatchLimit : Nat := 50

/-- The due sensors, the most overdue one first. Rows in `locked` are held by other
transactions and passed over. -/
def claimDueSensors (db : SensorDb) (now : Time) (locked : List Nat) : List Sensor :=
  let due := db.sensors.filter fun row => row.isDue now && row.id ∉ locked
  (due.mergeSort fun a b => decide (a.nextFireAt.getD now ≤ b.nextFireAt.getD now)).take
    claimBatchLimit

theorem mem_claimDueSensors {db : SensorDb} {now : Time} {locked : List Nat} {row : Sensor}
    (h : row ∈ claimDueSensors db now locked) : row ∈ db.sensors ∧ row.isDue now = true := by
  unfold claimDueSensors at h
  have hmem := List.mem_of_mem_take h
  rw [List.mem_mergeSort, List.mem_filter, Bool.and_eq_true] at hmem
  exact ⟨hmem.1, hmem.2.1⟩

/-- When the sensor is due after it fired at an instant. -/
def Sensor.nextAfter (nextFireAfter : NextFireAfter) (row : Sensor) (fireInstant : Time) :
    Except String Time :=
  match row.cadence with
  | .interval intervalSeconds _ _ => .ok (fireInstant + seconds intervalSeconds)
  | .cron cronExpr timezone => nextFireAfter cronExpr fireInstant timezone

/-- The row of the table that the advance of a claimed row matches. -/
def Sensor.matchesClaim (claimed row : Sensor) : Bool :=
  row.id = claimed.id && row.status = .active && row.nextFireAt = claimed.nextFireAt

def Sensor.advanced (newNext : Time) (row : Sensor) : Sensor :=
  { row with nextFireAt := some newNext }

/-- The table with the claimed row advanced; `none` if the row has been moved since. -/
def advanceSensorNextFire (nextFireAfter : NextFireAfter) (db : SensorDb) (claimed : Sensor)
    (fireInstant : Time) : Except String (Option SensorDb) := do
  let newNext ← claimed.nextAfter nextFireAfter fireInstant
  let advanced := Agenda.cas claimed.matchesClaim (Sensor.advanced newNext) db.sensors
  pure (advanced.map fun sensors => { db with sensors := sensors })

/-- `min(next_fire_at, not_later_than)` for an active sensor. -/
def accelerateSensorNextFire (db : SensorDb) (sensorId : Nat) (notLaterThan : Time) : SensorDb :=
  db.update sensorId fun row =>
    if row.status = .active && row.nextFireAt.any (notLaterThan < ·) then
      { row with nextFireAt := some notLaterThan }
    else row

def parkSensor (db : SensorDb) (sensorId : Nat) : SensorDb :=
  db.update sensorId fun row => { row with status := .paused }

/-! ## Readings -/

structure AssertionOutcome where
  state : CheckState
  value : Json
  evidence : Dict

/-- The row after the gate, and whether the committed state changed. -/
def commitThroughConfirmationGate (row : Sensor) (state : CheckState) (evaluatedAt : Time) :
    Sensor × Bool :=
  if state = row.lastState then ({ row with pendingState := none, pendingCount := 0 }, false)
  else
    let held : Sensor :=
      if row.pendingState = some state then { row with pendingCount := row.pendingCount + 1 }
      else { row with pendingState := some state, pendingCount := 1 }
    if 0 < row.retryTimes && held.pendingCount ≤ row.retryTimes then (held, false)
    else
      ({ row with
          lastState := state
          stateSince := some evaluatedAt
          pendingState := none
          pendingCount := 0 }, true)

/-- A reading that is not newer than the last one. -/
def Sensor.isStale (row : Sensor) (evaluatedAt : Time) : Bool :=
  row.lastEvaluatedAt.any (evaluatedAt ≤ ·)

/-- What a reading makes of the row that was loaded; `none` if it is stale. -/
def Sensor.record (row : Sensor) (state : CheckState) (evaluatedAt : Time) : Option Sensor :=
  if row.isStale evaluatedAt then none
  else some (commitThroughConfirmationGate { row with lastEvaluatedAt := some evaluatedAt } state
    evaluatedAt).1

/-- **What a reading makes of a row**: its state is committed at that instant, or the committed state
stays. -/
theorem record_cases {row row' : Sensor} {state : CheckState} {evaluatedAt : Time}
    (h : row.record state evaluatedAt = some row') :
    row'.lastEvaluatedAt = some evaluatedAt ∧ row'.status = row.status ∧
      row'.severity = row.severity ∧ row'.forSeconds = row.forSeconds ∧
      row'.nextFireAt = row.nextFireAt ∧
      ((row'.lastState = row.lastState ∧ row'.stateSince = row.stateSince) ∨
        (row'.lastState = state ∧ row'.stateSince = some evaluatedAt)) := by
  unfold Sensor.record at h
  split at h
  · cases h
  · cases h
    unfold commitThroughConfirmationGate
    dsimp only
    split
    · exact ⟨rfl, rfl, rfl, rfl, rfl, .inl ⟨rfl, rfl⟩⟩
    · -- whichever window the reading is in, it is held there or committed
      split <;> split
      · exact ⟨rfl, rfl, rfl, rfl, rfl, .inl ⟨rfl, rfl⟩⟩
      · exact ⟨rfl, rfl, rfl, rfl, rfl, .inr ⟨rfl, rfl⟩⟩
      · exact ⟨rfl, rfl, rfl, rfl, rfl, .inl ⟨rfl, rfl⟩⟩
      · exact ⟨rfl, rfl, rfl, rfl, rfl, .inr ⟨rfl, rfl⟩⟩

/-- The columns that differ between two versions of a row, written over a third. -/
def Sensor.writeChanges (loaded updated current : Sensor) : Sensor :=
  { current with
    lastEvaluatedAt := if loaded.lastEvaluatedAt = updated.lastEvaluatedAt then
      current.lastEvaluatedAt else updated.lastEvaluatedAt
    lastState := if loaded.lastState = updated.lastState then current.lastState
      else updated.lastState
    stateSince := if loaded.stateSince = updated.stateSince then current.stateSince
      else updated.stateSince
    pendingState := if loaded.pendingState = updated.pendingState then current.pendingState
      else updated.pendingState
    pendingCount := if loaded.pendingCount = updated.pendingCount then current.pendingCount
      else updated.pendingCount }

/-- The flush of a reading: the changed columns of the row, and the row of the history. -/
def flushRecord (recordHistory : Bool) (db : SensorDb) (loaded : Sensor)
    (outcome : AssertionOutcome) (evaluatedAt : Time) : SensorDb :=
  match loaded.record outcome.state evaluatedAt with
  | none => db
  | some updated =>
    { db.update loaded.id (loaded.writeChanges updated) with
      results := if recordHistory then
        db.results ++ [⟨loaded.id, evaluatedAt, outcome.state, outcome.value, outcome.evidence⟩]
        else db.results }

/-- The commit of a reading over a row that was loaded before. A sensor whose new state waits for
confirmation is run again earlier. Nothing is written for a row that is gone. -/
def persistOutcome (recordHistory : Bool) (db : SensorDb) (loaded : Sensor)
    (outcome : AssertionOutcome) (evaluatedAt : Time) : SensorDb :=
  if (db.get loaded.id).isNone then db
  else
    let written := flushRecord recordHistory db loaded outcome evaluatedAt
    if ((loaded.record outcome.state evaluatedAt).getD loaded).pendingState.isSome then
      accelerateSensorNextFire written loaded.id (evaluatedAt + seconds loaded.retryBackoffSeconds)
    else written

/-! ## Edits -/

/-- The row with new fields: due at once, with nothing that waits for confirmation. -/
def applyEdit (row : Sensor) (merged : SensorFields) (now : Time) : Sensor :=
  { row with
    toSensorFields := merged
    pendingState := none
    pendingCount := 0
    status := .active
    nextFireAt := some now
    edition := if row.settings == merged.settings then row.edition else row.edition + 1 }

/-- An edit that comes to the fields `merged`. When no field changes the row is not written. -/
def editSensor (db : SensorDb) (sensorId : Nat) (merged : SensorFields) (now : Time) : SensorDb :=
  db.update sensorId fun row =>
    if row.toSensorFields == merged then row else applyEdit row merged now

def deleteSensor (db : SensorDb) (sensorId : Nat) : SensorDb :=
  { db with sensors := db.sensors.filter (·.id ≠ sensorId) }

end Meho.Checks
