import Mathlib.Data.Bool.Basic
import Meho.Checks.Schedule
import Meho.Lib.Rewrite

/- Readings with the old settings, after an edit of a sensor.

An evaluation works on a snapshot of the row, so one that is under way when an edit
commits goes on with the old settings and records its reading. Nothing in the record
says which settings a reading was taken with. What the edit does give is an end: a
row that is claimed after it carries the new settings, and everything that carries the
old ones was under way on some replica before (`Replica.underway`). A reading uses up
what was under way, so there are no more old readings than that.

The edit itself leaves the committed state and the history, and drops the window of
a state that waits for confirmation. No other step touches them, except a reading
(`Turned`). -/
namespace Meho.Checks
open Meho.Lib
open Meho.Scheduler (NextFireAfter)

/-! ## What readings make of a sensor -/

/-- The committed state, and the window of a state that waits for confirmation. -/
structure Verdict where
  lastState : CheckState
  stateSince : Option Time
  pendingState : Option CheckState
  pendingCount : Nat
  deriving DecidableEq

/-- The window is dropped. -/
def Verdict.cleared (v : Verdict) : Verdict := { v with pendingState := none, pendingCount := 0 }

def Sensor.verdict (row : Sensor) : Verdict :=
  ⟨row.lastState, row.stateSince, row.pendingState, row.pendingCount⟩

def SensorDb.history (db : SensorDb) (sensorId : Nat) : List SensorResult :=
  db.results.filter (·.sensorId = sensorId)

/-- What a step that commits a reading of the sensor `read`, or none, and edits the sensor
`edits`, or none, makes of a row. -/
def Turns (read edits : Option Nat) (row row' : Sensor) : Prop :=
  row.edition ≤ row'.edition ∧
    (read ≠ some row.id → row'.verdict = row.verdict ∨ row'.verdict = row.verdict.cleared) ∧
    (edits ≠ some row.id → row'.settings = row.settings)

/-- What such a step makes of the tables. -/
structure Turned (read edits : Option Nat) (db db' : SensorDb) : Prop where
  rows : Rewrites Sensor.id (Turns read edits) db.sensors db'.sensors
  history : ∀ sensorId, read ≠ some sensorId → db'.history sensorId = db.history sensorId

section Turned
variable {read edits : Option Nat} {db db' db'' : SensorDb}

theorem Turns.refl (row : Sensor) : Turns read edits row row :=
  ⟨Nat.le_refl _, fun _ => .inl rfl, fun _ => rfl⟩

theorem Turns.trans {a b c : Sensor} (hid : a.id = b.id) (h : Turns read edits a b)
    (h' : Turns read edits b c) : Turns read edits a c := by
  refine ⟨Nat.le_trans h.1 h'.1, ?_, fun hedits => (h'.2.2 (hid ▸ hedits)).trans (h.2.2 hedits)⟩
  intro hread
  have hfirst := h.2.1 hread
  have hsecond := h'.2.1 (hid ▸ hread)
  rcases hfirst with hsame | hcleared
  · rw [hsame] at hsecond
    exact hsecond
  · rw [hcleared] at hsecond
    exact .inr (hsecond.elim id id)

theorem Turned.refl : Turned read edits db db := ⟨Rewrites.refl Turns.refl, fun _ _ => rfl⟩

theorem Turned.trans (h : Turned read edits db db') (h' : Turned read edits db' db'') :
    Turned read edits db db'' :=
  ⟨h.rows.trans h'.rows fun _ _ _ hid _ => Turns.trans hid,
    fun i hi => (h'.history i hi).trans (h.history i hi)⟩

theorem update_turned {sensorId : Nat} {f : Sensor → Sensor} (hid : ∀ row, (f row).id = row.id)
    (hf : ∀ row, row.id = sensorId → Turns read edits row (f row)) :
    Turned read edits db (db.update sensorId f) := by
  refine ⟨Rewrites.of_map ?_ ?_, fun _ _ => rfl⟩
  · intro row
    split
    · exact hid row
    · rfl
  · intro row _
    split
    · rename_i hrow
      exact hf row hrow
    · exact Turns.refl row

theorem parkSensor_turned (sensorId : Nat) : Turned read edits db (parkSensor db sensorId) :=
  update_turned (fun _ => rfl) fun row _ => Turns.refl row

theorem deleteSensor_turned (sensorId : Nat) : Turned read edits db (deleteSensor db sensorId) :=
  ⟨Rewrites.of_filter Turns.refl _, fun _ _ => rfl⟩

theorem accelerate_turned (sensorId : Nat) (notLaterThan : Time) :
    Turned read edits db (accelerateSensorNextFire db sensorId notLaterThan) := by
  refine update_turned ?_ ?_
  · intro row
    split <;> rfl
  · intro row _
    split <;> exact Turns.refl row

theorem advance_turned {nextFireAfter : NextFireAfter} {claimed : Sensor} {fireInstant : Time}
    (h : advanceSensorNextFire nextFireAfter db claimed fireInstant = .ok (some db')) :
    Turned read edits db db' := by
  unfold advanceSensorNextFire at h
  cases hnext : claimed.nextAfter nextFireAfter fireInstant with
  | error e =>
    rw [hnext] at h
    cases h
  | ok next =>
    rw [hnext] at h
    obtain ⟨sensors, hcas, rfl⟩ := Option.map_eq_some_iff.mp (Except.ok.inj h)
    unfold Agenda.cas at hcas
    split at hcas
    · cases hcas
      refine ⟨Rewrites.of_map ?_ ?_, fun _ _ => rfl⟩
      · intro row
        split <;> rfl
      · intro row _
        split <;> exact Turns.refl row
    · cases hcas

theorem applyEdit_edition (row : Sensor) (merged : SensorFields) (now : Time) :
    row.edition ≤ (applyEdit row merged now).edition := by
  unfold applyEdit
  dsimp only
  split
  · exact Nat.le_refl _
  · exact Nat.le_succ _

theorem editSensor_turned (sensorId : Nat) (merged : SensorFields) (now : Time) :
    Turned read (some sensorId) db (editSensor db sensorId merged now) := by
  refine update_turned ?_ ?_
  · intro row
    split <;> rfl
  · intro row hid
    split
    · exact Turns.refl row
    · exact ⟨applyEdit_edition row merged now, fun _ => .inr rfl,
        fun hedits => absurd (congrArg some hid.symm) hedits⟩

theorem flushRecord_turned (recordHistory : Bool) (loaded : Sensor) (outcome : AssertionOutcome)
    (evaluatedAt : Time) :
    Turned (some loaded.id) edits db (flushRecord recordHistory db loaded outcome evaluatedAt) := by
  unfold flushRecord
  split
  · exact Turned.refl
  · rename_i updated _
    have hrow : Turned (some loaded.id) edits db
        (db.update loaded.id (loaded.writeChanges updated)) :=
      update_turned (fun _ => rfl) fun row hid =>
        ⟨Nat.le_refl _, fun hread => absurd (congrArg some hid.symm) hread, fun _ => rfl⟩
    refine ⟨hrow.rows, ?_⟩
    intro i hi
    unfold SensorDb.history
    dsimp only
    split
    · rw [List.filter_append, List.filter_cons_of_neg, List.filter_nil, List.append_nil]
      intro heq
      exact hi (congrArg some (of_decide_eq_true heq))
    · rfl

theorem persistOutcome_turned (recordHistory : Bool) (loaded : Sensor) (outcome : AssertionOutcome)
    (evaluatedAt : Time) :
    Turned (some loaded.id) edits db (persistOutcome recordHistory db loaded outcome evaluatedAt) := by
  have hflush : Turned (some loaded.id) edits db
      (flushRecord recordHistory db loaded outcome evaluatedAt) :=
    flushRecord_turned recordHistory loaded outcome evaluatedAt
  unfold persistOutcome
  split
  · exact Turned.refl
  · dsimp only
    split
    · exact hflush.trans (accelerate_turned loaded.id _)
    · exact hflush

end Turned

/-! ## Readings -/

/-- The snapshot of the evaluation whose reading is the next to be committed. -/
def Runners.reading (s : Runners) (p sensorId : Nat) : Option SensorSnapshot :=
  match (s.replicas p).inFlight sensorId with
  | some ⟨snap, .loaded _ _ _⟩ => some snap
  | _ => none

/-- The snapshot whose reading of the sensor the action commits on the replica. -/
def Runners.commits (s : Runners) (p sensorId : Nat) : RunnerAct → Option SensorSnapshot
  | .write q k => if q = p ∧ k = sensorId then s.reading p sensorId else none
  | _ => none

/-- The sensor of which the action commits a reading. -/
def Runners.read (s : Runners) : RunnerAct → Option Nat
  | .write p sensorId => (s.reading p sensorId).map fun _ => sensorId
  | _ => none

/-- The sensor that the action edits. -/
def RunnerAct.edits : RunnerAct → Option Nat
  | .edit sensorId _ _ => some sensorId
  | _ => none

/-- The rows that the action claims for its tick. -/
def Runners.claims (s : Runners) : RunnerAct → List Sensor
  | .claim p true locked =>
    match (s.replicas p).stage with
    | .started now => claimDueSensors s.db now locked
    | _ => []
  | _ => []

section
variable {s : Runners} {p sensorId : Nat}

/-- A row is claimed as the table has it. -/
theorem mem_of_claims {a : RunnerAct} {row : Sensor} (h : row ∈ s.claims a) :
    row ∈ s.db.sensors := by
  unfold Runners.claims at h
  split at h
  · split at h
    · exact (mem_claimDueSensors h).1
    · cases h
  · cases h

theorem reading_of_loaded {e : Evaluation} {outcome : AssertionOutcome} {evaluatedAt : Time}
    {row : Sensor} (hflight : (s.replicas p).inFlight sensorId = some e)
    (hloaded : e.stage = .loaded outcome evaluatedAt row) : s.reading p sensorId = some e.snap := by
  obtain ⟨snap, stage⟩ := e
  cases hloaded
  unfold Runners.reading
  rw [hflight]

theorem loaded_of_reading {snap : SensorSnapshot} (h : s.reading p sensorId = some snap) :
    ∃ outcome evaluatedAt row,
      (s.replicas p).inFlight sensorId = some ⟨snap, .loaded outcome evaluatedAt row⟩ := by
  unfold Runners.reading at h
  split at h
  · rename_i hflight
    cases h
    exact ⟨_, _, _, hflight⟩
  · cases h

theorem write_of_commits {a : RunnerAct} {snap : SensorSnapshot}
    (h : s.commits p sensorId a = some snap) :
    a = .write p sensorId ∧ s.reading p sensorId = some snap := by
  cases a with
  | write q k =>
    simp only [Runners.commits] at h
    split at h
    · rename_i heq
      exact ⟨by rw [heq.1, heq.2], h⟩
    · cases h
  | _ => cases h

end

/-- An evaluation is filed under its sensor, and has loaded the row of it. -/
def Replica.Keyed (r : Replica) : Prop :=
  ∀ sensorId e, r.inFlight sensorId = some e → e.snap.id = sensorId ∧
    ∀ outcome evaluatedAt row, e.stage = .loaded outcome evaluatedAt row → row.id = sensorId

def Keyed (s : Runners) : Prop := ∀ p, (s.replicas p).Keyed

section Keyed
variable {s s' : Runners} {p : Nat}

theorem Keyed.setStage (h : Keyed s) (stage : TickStage) : Keyed (s.setStage p stage) :=
  (Function.forall_update_iff s.replicas fun _ r => Replica.Keyed r).mpr ⟨h p, fun q _ => h q⟩

theorem Keyed.setEvaluation (h : Keyed s) {sensorId : Nat} {o : Option Evaluation}
    (ho : ∀ e, o = some e → e.snap.id = sensorId ∧
      ∀ outcome evaluatedAt row, e.stage = .loaded outcome evaluatedAt row → row.id = sensorId) :
    Keyed (s.setEvaluation p sensorId o) := by
  refine (Function.forall_update_iff s.replicas fun _ r => Replica.Keyed r).mpr ⟨?_, fun q _ => h q⟩
  intro k e he
  dsimp only at he
  by_cases hk : k = sensorId
  · subst hk
    rw [Function.update_self] at he
    exact ho e he
  · rw [Function.update_of_ne hk] at he
    exact h p k e he

/-- An evaluation that goes on and has not loaded its row. -/
theorem Keyed.goesOn (h : Keyed s) {sensorId : Nat} {e : Evaluation} {stage : EvaluationStage}
    (hflight : (s.replicas p).inFlight sensorId = some e)
    (hstage : ∀ outcome evaluatedAt row, stage ≠ .loaded outcome evaluatedAt row) :
    Keyed (s.setEvaluation p sensorId (some ⟨e.snap, stage⟩)) := by
  refine h.setEvaluation ?_
  intro e' he'
  cases he'
  exact ⟨(h p sensorId e hflight).1, fun o t row heq => absurd heq (hstage o t row)⟩

theorem get_id {db : SensorDb} {sensorId : Nat} {row : Sensor} (h : db.get sensorId = some row) :
    row.id = sensorId := by
  unfold SensorDb.get at h
  have hfound := List.find?_some h
  exact of_decide_eq_true hfound

end Keyed

section Moves
variable {nextFireAfter : NextFireAfter} {recordHistory : Bool} {s s' : Runners} {a : RunnerAct}
  {es : List RunnerEvent}

section
variable (h : Keyed s) (hmove : RunnerMove nextFireAfter recordHistory s a s' es)
include h hmove

theorem Keyed.move : Keyed s' := by
  cases hmove with
  | stay => exact h
  | start p now | quit _ p | claim p now gotLock locked | pass _ p now row rows toDispatch hstage =>
      exact h.setStage _
  | park p now row rows toDispatch hstage =>
    exact Keyed.setStage (s := { s with db := parkSensor s.db row.id }) h _
  | take p now row rows toDispatch db hstage hfree hadvance =>
    exact Keyed.setStage (s := { s with db := db }) h _
  | toSpawn p now toDispatch hstage | drop p snap rest hstage hbusy => exact h.setStage _
  | spawn p snap rest hstage =>
    refine (h.setStage _).setEvaluation ?_
    intro e he
    cases he
    refine ⟨rfl, ?_⟩
    intro _ _ _ heq
    cases heq
  | evaluate p sensorId outcome evaluatedAt e hflight hrunning | gone p sensorId e hflight =>
    refine h.goesOn hflight ?_
    intro _ _ _ heq
    cases heq
  | load p sensorId outcome evaluatedAt e row hflight hevaluated hrow =>
    have hid := (h p sensorId e hflight).1
    refine h.setEvaluation ?_
    intro e' he'
    cases he'
    refine ⟨hid, ?_⟩
    intro o t row' heq
    cases heq
    -- the row was loaded by the id of the flight
    exact (get_id hrow).trans hid
  | write p sensorId outcome evaluatedAt e row hflight hloaded =>
    refine Keyed.goesOn (s := { s with db := persistOutcome recordHistory s.db row outcome evaluatedAt })
      h hflight ?_
    intro _ _ _ heq
    cases heq
  | finish p sensorId =>
    refine h.setEvaluation ?_
    intro e he
    cases he
  | edit sensorId merged now => exact h
  | delete sensorId => exact h

/-- **Only a reading touches what readings made**: of the other steps, an edit may drop the window. -/
theorem move_turned : Turned (s.read a) a.edits s.db s'.db := by
  cases hmove with
  | park p now row rows toDispatch hstage => exact parkSensor_turned row.id
  | take p now row rows toDispatch db hstage hfree hadvance => exact advance_turned hadvance
  | write p sensorId outcome evaluatedAt e row hflight hloaded =>
    have hid := (h p sensorId e hflight).2 outcome evaluatedAt row hloaded
    have hread : s.read (.write p sensorId) = some row.id := by
      show (s.reading p sensorId).map _ = _
      rw [reading_of_loaded hflight hloaded, hid]
      rfl
    rw [hread]
    exact persistOutcome_turned recordHistory row outcome evaluatedAt
  | edit sensorId merged now => exact editSensor_turned sensorId merged now
  | delete sensorId => exact deleteSensor_turned sensorId
  | _ => exact Turned.refl

end

end Moves

/-! ## What is under way -/

def EvaluationStage.isWritten : EvaluationStage → Bool
  | .written => true
  | _ => false

/-- An evaluation with settings up to an edition, whose reading is to come. -/
def Evaluation.isOld (edition : Nat) (e : Evaluation) : Bool :=
  !e.stage.isWritten && e.snap.edition ≤ edition

/-- The copies of a sensor's row, up to an edition, that a tick has claimed or taken. -/
def TickStage.held (stage : TickStage) (sensorId edition : Nat) : Nat :=
  stage.rows.countP (fun row => row.id = sensorId && row.edition ≤ edition) +
    stage.queue.countP (fun snap => snap.id = sensorId && snap.edition ≤ edition)

/-- **What a replica has under way** of a sensor with settings up to an edition: what its tick has
claimed or taken, and the evaluation that is in flight. -/
def Replica.underway (r : Replica) (sensorId edition : Nat) : Nat :=
  r.stage.held sensorId edition + ((r.inFlight sensorId).any (Evaluation.isOld edition)).toNat

section Underway
variable {s s' : Runners} {sensorId edition : Nat}

variable {q : Nat}

theorem setStage_underway {stage : TickStage}
    (h : stage.held sensorId edition ≤ (s.replicas q).stage.held sensorId edition) (p : Nat) :
    ((s.setStage q stage).replicas p).underway sensorId edition ≤
      (s.replicas p).underway sensorId edition := by
  by_cases hp : p = q
  · subst hp
    rw [Runners.setStage_self]
    exact Nat.add_le_add_right h _
  · exact Nat.le_of_eq (by rw [Runners.setStage_of_ne hp])

theorem setEvaluation_underway {k : Nat} {o : Option Evaluation}
    (h : o.any (Evaluation.isOld edition) = true →
      ((s.replicas q).inFlight k).any (Evaluation.isOld edition) = true)
    (p : Nat) :
    ((s.setEvaluation q k o).replicas p).underway sensorId edition ≤
      (s.replicas p).underway sensorId edition := by
  by_cases hp : p = q
  · subst hp
    rw [Runners.setEvaluation_self]
    refine Nat.add_le_add_left ?_ _
    dsimp only
    by_cases hk : sensorId = k
    · subst hk
      rw [Function.update_self]
      exact Bool.toNat_le_toNat (Bool.le_iff_imp.mpr h)
    · exact Nat.le_of_eq (by rw [Function.update_of_ne hk])
  · exact Nat.le_of_eq (by rw [Runners.setEvaluation_of_ne hp])

theorem goesOn_underway {k : Nat} {e : Evaluation} {stage : EvaluationStage}
    (hflight : (s.replicas q).inFlight k = some e) (hopen : e.stage.isWritten = false) (p : Nat) :
    ((s.setEvaluation q k (some ⟨e.snap, stage⟩)).replicas p).underway sensorId edition ≤
      (s.replicas p).underway sensorId edition := by
  refine setEvaluation_underway ?_ p
  intro hold
  rw [hflight]
  simp only [Option.any_some, Evaluation.isOld, Bool.and_eq_true] at hold ⊢
  exact ⟨by rw [hopen]; rfl, hold.2⟩

/-- A row that a tick has passed. -/
theorem held_pass (now : Time) (row : Sensor) (rows : List Sensor)
    (toDispatch : List SensorSnapshot) :
    (TickStage.claimed now rows toDispatch).held sensorId edition ≤
      (TickStage.claimed now (row :: rows) toDispatch).held sensorId edition := by
  unfold TickStage.held TickStage.rows TickStage.queue
  dsimp only
  rw [List.countP_cons]
  omega

/-- A row that a tick has taken. -/
theorem held_take (now instant : Time) (row : Sensor) (rows : List Sensor)
    (toDispatch : List SensorSnapshot) :
    (TickStage.claimed now rows (toDispatch ++ [row.snapshot instant])).held sensorId edition =
      (TickStage.claimed now (row :: rows) toDispatch).held sensorId edition := by
  unfold TickStage.held TickStage.rows TickStage.queue
  dsimp only
  rw [List.countP_append, List.countP_cons, List.countP_cons, List.countP_nil]
  show _ + (_ + (0 + if (row.id = sensorId && row.edition ≤ edition) = true then 1 else 0)) = _
  omega

theorem held_spawn (snap : SensorSnapshot) (rest : List SensorSnapshot) :
    (TickStage.spawning (snap :: rest)).held sensorId edition =
      (TickStage.spawning rest).held sensorId edition +
        (snap.id = sensorId && snap.edition ≤ edition : Bool).toNat := by
  unfold TickStage.held TickStage.rows TickStage.queue
  dsimp only
  rw [List.countP_cons, List.countP_nil]
  cases (decide (snap.id = sensorId) && decide (snap.edition ≤ edition)) <;> simp

/-- Nothing that is claimed now has the old settings. -/
theorem held_claim {now : Time} {locked : List Nat}
    (hdb : ∀ row ∈ s.db.sensors, row.id = sensorId → edition < row.edition) :
    (TickStage.claimed now (claimDueSensors s.db now locked) []).held sensorId edition = 0 := by
  have hrows : (claimDueSensors s.db now locked).countP
      (fun row => row.id = sensorId && row.edition ≤ edition) = 0 := by
    rw [List.countP_eq_zero]
    intro row hrow hold
    rw [Bool.and_eq_true, decide_eq_true_eq, decide_eq_true_eq] at hold
    have hlater := hdb row (mem_claimDueSensors hrow).1 hold.1
    omega
  unfold TickStage.held TickStage.rows TickStage.queue
  dsimp only
  rw [hrows, List.countP_nil]

theorem spawn_underway {snap : SensorSnapshot} {rest : List SensorSnapshot}
    (hstage : (s.replicas q).stage = .spawning (snap :: rest)) (p : Nat) :
    (((s.setStage q (.spawning rest)).setEvaluation q snap.id (some ⟨snap, .running⟩)).replicas
        p).underway sensorId edition ≤ (s.replicas p).underway sensorId edition := by
  by_cases hp : p = q
  · subst hp
    unfold Replica.underway
    rw [hstage, held_spawn, Runners.setEvaluation_self, Runners.setStage_self]
    dsimp only
    by_cases hid : sensorId = snap.id
    · subst hid
      rw [Function.update_self]
      have hnew : (some (⟨snap, .running⟩ : Evaluation)).any (Evaluation.isOld edition) =
          (decide (snap.id = snap.id) && decide (snap.edition ≤ edition)) := by
        simp [Evaluation.isOld, EvaluationStage.isWritten]
      rw [hnew]
      omega
    · rw [Function.update_of_ne hid]
      omega
  · exact Nat.le_of_eq (by rw [Runners.setEvaluation_of_ne hp, Runners.setStage_of_ne hp])

variable {nextFireAfter : NextFireAfter} {recordHistory : Bool} {a : RunnerAct}
  {es : List RunnerEvent}

theorem move_underway (hdb : ∀ row ∈ s.db.sensors, row.id = sensorId → edition < row.edition)
    (hmove : RunnerMove nextFireAfter recordHistory s a s' es) (p : Nat) :
    (s'.replicas p).underway sensorId edition ≤ (s.replicas p).underway sensorId edition := by
  cases hmove with
  | stay | edit k merged now | delete k => exact Nat.le_refl _
  | start q now | quit _ q => exact setStage_underway (Nat.zero_le _) p
  | claim q now gotLock locked =>
    refine setStage_underway ?_ p
    rw [held_claim hdb]
    exact Nat.zero_le _
  | pass _ q now row rows toDispatch hstage =>
    exact setStage_underway (by rw [hstage]; exact held_pass now row rows toDispatch) p
  | park q now row rows toDispatch hstage =>
    refine setStage_underway (s := { s with db := parkSensor s.db row.id }) ?_ p
    show _ ≤ (s.replicas q).stage.held sensorId edition
    rw [hstage]
    exact held_pass now row rows toDispatch
  | take q now row rows toDispatch db hstage hfree hadvance =>
    refine setStage_underway (s := { s with db := db }) ?_ p
    show _ ≤ (s.replicas q).stage.held sensorId edition
    exact Nat.le_of_eq (by rw [hstage, held_take])
  | toSpawn q now toDispatch hstage =>
    exact setStage_underway (by rw [hstage]; exact Nat.le_refl _) p
  | drop q snap rest hstage hbusy =>
    refine setStage_underway ?_ p
    rw [hstage, held_spawn]
    exact Nat.le_add_right _ _
  | spawn q snap rest hstage => exact spawn_underway hstage p
  | evaluate q k outcome evaluatedAt e hflight hrunning =>
    exact goesOn_underway hflight (by rw [hrunning]; rfl) p
  | load q k outcome evaluatedAt e row hflight hevaluated hrow =>
    exact goesOn_underway hflight (by rw [hevaluated]; rfl) p
  | gone q k e hflight | finish q k => exact setEvaluation_underway (fun h => by cases h) p
  | write q k outcome evaluatedAt e row hflight hloaded =>
    refine setEvaluation_underway
      (s := { s with db := persistOutcome recordHistory s.db row outcome evaluatedAt }) ?_ p
    intro h
    cases h

end Underway

/-! ## Runs -/

/-- The step commits a reading of the sensor that was taken with settings up to an edition. -/
def oldReading (p sensorId edition : Nat) (c : Config Runners RunnerEvent) (a : RunnerAct) : Bool :=
  (c.state.commits p sensorId a).any (·.edition ≤ edition)

section Runs
variable {nextFireAfter : NextFireAfter} {recordHistory : Bool}

/-- A reading with old settings was under way, and is not any more. -/
theorem write_underway {s : Runners} {p sensorId edition : Nat} {snap : SensorSnapshot}
    (hreading : s.reading p sensorId = some snap) (hold : snap.edition ≤ edition) :
    1 + ((runnerStep nextFireAfter recordHistory s (.write p sensorId)).1.replicas p).underway sensorId
      edition = (s.replicas p).underway sensorId edition := by
  obtain ⟨outcome, evaluatedAt, row, hflight⟩ := loaded_of_reading hreading
  have hbefore : ((s.replicas p).inFlight sensorId).any (Evaluation.isOld edition) = true := by
    rw [hflight]
    simpa [Evaluation.isOld, EvaluationStage.isWritten] using hold
  simp only [runnerStep, evaluationStep, hflight]
  unfold Replica.underway
  rw [hbefore, Runners.setEvaluation_self]
  dsimp only
  rw [Function.update_self]
  show 1 + (_ + 0) = _ + 1
  omega

variable {c : Config Runners RunnerEvent}

theorem oldReading_pays {sensorId edition : Nat}
    (hdb : ∀ row ∈ c.state.db.sensors, row.id = sensorId → edition < row.edition) (p : Nat)
    (a : RunnerAct) :
    (oldReading p sensorId edition c a).toNat +
        ((runnerStep nextFireAfter recordHistory c.state a).1.replicas p).underway sensorId edition ≤
      (c.state.replicas p).underway sensorId edition := by
  by_cases hold : oldReading p sensorId edition c a = true
  · obtain ⟨snap, hcommit, hle⟩ := (Option.any_eq_true _ _).mp hold
    obtain ⟨rfl, hreading⟩ := write_of_commits hcommit
    rw [hold]
    exact Nat.le_of_eq (write_underway hreading (of_decide_eq_true hle))
  · rw [Bool.eq_false_of_not_eq_true hold]
    have hmove := move_underway hdb (runnerStep_move nextFireAfter recordHistory c.state a) p
    show 0 + _ ≤ _
    omega

variable (nextFireAfter recordHistory) in
/-- What a step leaves as it was of every sensor whose reading it does not commit. -/
def OnlyReadings (c : Config Runners RunnerEvent) (a : RunnerAct) : Prop :=
  ∀ sensorId, (∀ p, c.state.commits p sensorId a = none) →
    let db' := (runnerStep nextFireAfter recordHistory c.state a).1.db
    db'.history sensorId = c.state.db.history sensorId ∧
      ∀ row ∈ c.state.db.sensors, row.id = sensorId → ∀ row' ∈ db'.sensors, row'.id = sensorId →
        row'.verdict = row.verdict ∨ row'.verdict = row.verdict.cleared

theorem read_of_commits {s : Runners} {sensorId : Nat} {a : RunnerAct}
    (h : ∀ p, s.commits p sensorId a = none) : s.read a ≠ some sensorId := by
  intro hread
  cases a with
  | write p k =>
    obtain ⟨snap, hreading, rfl⟩ := Option.map_eq_some_iff.mp hread
    have hnone := h p
    simp only [Runners.commits, and_self, if_true] at hnone
    rw [hreading] at hnone
    cases hnone
  | _ => cases hread

/-- What every run keeps. -/
structure Filed (c : Config Runners RunnerEvent) : Prop where
  ids : (c.state.db.sensors.map Sensor.id).Nodup
  keyed : Keyed c.state

theorem Filed.onlyReadings (h : Filed c) (a : RunnerAct) :
    OnlyReadings nextFireAfter recordHistory c a := by
  intro sensorId hnone
  have hturned := move_turned h.keyed (runnerStep_move nextFireAfter recordHistory c.state a)
  have hread := read_of_commits hnone
  refine ⟨hturned.history sensorId hread, ?_⟩
  intro row hrow hid row' hrow' hid'
  exact (hturned.rows.at_key h.ids hrow hrow' (hid.trans hid'.symm)).2.1 (hid ▸ hread)

variable {db : SensorDb}

theorem Filed.next (h : Filed c) (a : RunnerAct) :
    Filed ((runnerMachine nextFireAfter recordHistory db).next c a) := by
  have hmove := runnerStep_move nextFireAfter recordHistory c.state a
  exact ⟨(move_turned h.keyed hmove).rows.keys.nodup h.ids, h.keyed.move hmove⟩

theorem filed_begin (hids : (db.sensors.map Sensor.id).Nodup) :
    Filed (runnerMachine nextFireAfter recordHistory db).begin_ := by
  refine ⟨hids, ?_⟩
  intro p sensorId e he
  cases he

theorem newer_next (hfiled : Filed c) {sensorId edition : Nat}
    (h : ∀ row ∈ c.state.db.sensors, row.id = sensorId → edition < row.edition) (a : RunnerAct) :
    ∀ row ∈ ((runnerMachine nextFireAfter recordHistory db).next c a).state.db.sensors,
      row.id = sensorId → edition < row.edition := by
  intro row' hrow' hid
  have hmove := runnerStep_move nextFireAfter recordHistory c.state a
  obtain ⟨row, hrow, hkey, hturns⟩ := (move_turned hfiled.keyed hmove).rows.rows row' hrow'
  exact Nat.lt_of_lt_of_le (h row hrow (hkey.trans hid)) hturns.1

/-- Only an edit of the sensor changes what it measures. -/
theorem settings_next (hfiled : Filed c) {sensorId : Nat} {settings : SensorSettings}
    (h : ∀ row ∈ c.state.db.sensors, row.id = sensorId → row.settings = settings) {a : RunnerAct}
    (ha : a.edits ≠ some sensorId) :
    ∀ row ∈ ((runnerMachine nextFireAfter recordHistory db).next c a).state.db.sensors,
      row.id = sensorId → row.settings = settings := by
  intro row' hrow' hid
  have hmove := runnerStep_move nextFireAfter recordHistory c.state a
  obtain ⟨row, hrow, hkey, hturns⟩ := (move_turned hfiled.keyed hmove).rows.rows row' hrow'
  have hrowid : row.id = sensorId := hkey.trans hid
  exact (hturns.2.2 (hrowid ▸ ha)).trans (h row hrow hrowid)

/-- An edit of the settings is an edit. -/
theorem fields_ne {fields merged : SensorFields}
    (h : (fields.settings == merged.settings) = false) : (fields == merged) = false := by
  obtain ⟨name, settings, cadence, severity⟩ := fields
  obtain ⟨name', settings', cadence', severity'⟩ := merged
  show (name == name' && (settings == settings' && (cadence == cadence' && severity == severity'))) =
    false
  have hsettings : (settings == settings') = false := h
  rw [hsettings, Bool.false_and, Bool.and_false]

/-- The row of an edited sensor. -/
theorem editSensor_row {row row' : Sensor} {merged : SensorFields} {now : Time}
    (hids : (db.sensors.map Sensor.id).Nodup) (hrow : row ∈ db.sensors)
    (hchange : (row.settings == merged.settings) = false)
    (hrow' : row' ∈ (editSensor db row.id merged now).sensors) (hid : row'.id = row.id) :
    row' = applyEdit row merged now := by
  obtain ⟨before, hbefore, rfl⟩ := List.mem_map.mp hrow'
  have hkey : before.id = row.id := by
    rw [← hid]
    split
    · dsimp only
      split <;> rfl
    · rfl
  have heq : before = row := List.inj_on_of_nodup_map hids hbefore hrow hkey
  subst heq
  rw [if_pos rfl]
  dsimp only
  rw [fields_ne hchange]
  rfl

variable (nextFireAfter recordHistory db) in
/-- **Readings with the old settings come to an end.** When an edit that changes the settings of a
sensor commits, the committed state and the history stay and the window is dropped. From there
on, in every interleaving, a row that is claimed carries the new settings (those of the edit until
the sensor is edited again), and a replica commits no more readings with the old settings than it
had under way at the edit. And in the whole run nothing but a reading of the sensor changes its
committed state, its history or, apart from an edit that drops it, its window. -/
theorem old_readings_end (hids : (db.sensors.map Sensor.id).Nodup) (pre post : List RunnerAct)
    (row : Sensor) (merged : SensorFields) (now : Time)
    (before edited : Config Runners RunnerEvent)
    (hbefore : before = (runnerMachine nextFireAfter recordHistory db).after pre)
    (hedited : edited = (runnerMachine nextFireAfter recordHistory db).next before
      (.edit row.id merged now))
    (hrow : row ∈ before.state.db.sensors)
    (hchange : (row.settings == merged.settings) = false) :
    (edited.state.db.results = before.state.db.results ∧
      ∀ row' ∈ edited.state.db.sensors, row'.id = row.id →
        row'.settings = merged.settings ∧ row'.verdict = row.verdict.cleared) ∧
    (∀ mid a, ∀ r ∈ ((runnerMachine nextFireAfter recordHistory db).run edited mid).state.claims a,
        r.id = row.id → row.edition < r.edition ∧
          ((∀ b ∈ mid, b.edits ≠ some row.id) → r.settings = merged.settings)) ∧
    (∀ p, (runnerMachine nextFireAfter recordHistory db).count (oldReading p row.id row.edition)
        edited post ≤ (before.state.replicas p).underway row.id row.edition) ∧
    (runnerMachine nextFireAfter recordHistory db).Along
      (OnlyReadings nextFireAfter recordHistory)
      (runnerMachine nextFireAfter recordHistory db).begin_ (pre ++ .edit row.id merged now :: post) := by
  have hfiled : Filed before := by
    rw [hbefore]
    exact (runnerMachine nextFireAfter recordHistory db).run_induct
      (fun _ a hc => hc.next a) (filed_begin hids) pre
  have hrows : ∀ row' ∈ edited.state.db.sensors, row'.id = row.id →
      row' = applyEdit row merged now := by
    intro row' hrow' hid
    rw [hedited] at hrow'
    exact editSensor_row hfiled.ids hrow hchange hrow' hid
  have hstart : Filed edited := by
    rw [hedited]
    exact hfiled.next _
  -- an edit that changes the settings takes a new edition
  have hnewer : ∀ r ∈ edited.state.db.sensors, r.id = row.id → row.edition < r.edition := by
    intro r hr hid
    rw [hrows r hr hid]
    show row.edition < if row.settings == merged.settings then row.edition else row.edition + 1
    rw [hchange]
    exact Nat.lt_succ_self _
  refine ⟨⟨by rw [hedited]; rfl, ?_⟩, ?_, ?_, ?_⟩
  · intro row' hrow' hid
    rw [hrows row' hrow' hid]
    exact ⟨rfl, rfl⟩
  · intro mid a r hr hid
    have hmem := mem_of_claims hr
    constructor
    -- editions only grow, so a claim after the edit has a later one
    · exact ((runnerMachine nextFireAfter recordHistory db).run_induct
        (P := fun c => Filed c ∧ ∀ r ∈ c.state.db.sensors, r.id = row.id → row.edition < r.edition)
        (fun _ a hc => ⟨hc.1.next a, newer_next hc.1 hc.2 a⟩) ⟨hstart, hnewer⟩ mid).2 r hmem hid
    · intro hmid
      refine ((runnerMachine nextFireAfter recordHistory db).run_induct_of_forall
        (I := fun c => Filed c ∧
          ∀ r ∈ c.state.db.sensors, r.id = row.id → r.settings = merged.settings)
        (fun _ a hc ha => ⟨hc.1.next a, settings_next hc.1 hc.2 ha⟩) ⟨hstart, ?_⟩ hmid).2 r hmem hid
      intro r hr hid
      rw [hrows r hr hid]
      rfl
  · intro p
    have hreplicas : before.state.replicas = edited.state.replicas := by
      rw [hedited]
      rfl
    rw [hreplicas]
    -- each commit of an old reading ends one evaluation that was under way at the edit
    refine (runnerMachine nextFireAfter recordHistory db).count_le_budget
      (I := fun c => Filed c ∧ ∀ r ∈ c.state.db.sensors, r.id = row.id → row.edition < r.edition)
      (B := fun c => (c.state.replicas p).underway row.id row.edition) ?_ ?_ ⟨hstart, hnewer⟩ post
    · intro c a hc
      exact ⟨hc.1.next a, newer_next hc.1 hc.2 a⟩
    · intro c a hc
      exact oldReading_pays hc.2 p a
  · exact (runnerMachine nextFireAfter recordHistory db).along_of_invariant
      (fun _ a hc => hc.next a) (fun _ a hc => hc.onlyReadings a) (filed_begin hids) _

end Runs

/-! ## An old reading after an edit -/

/-- The sensor measures something else. -/
def traceFields : SensorFields :=
  ⟨"ping", ⟨"net", "trace", [], []⟩, .cron "* * * * *" "UTC", .critical⟩

/-- The evaluation that was in flight comes back. -/
def lateReading : List RunnerAct :=
  [.evaluate 0 0 ⟨.critical, .null, []⟩ (seconds 63), .load 0 0, .write 0 0]

/-- The sensor is taken and its evaluation is spawned; then its settings are edited. -/
def editedInFlight : Config Runners RunnerEvent :=
  (runnerMachine everyMinute true minuteDb).next
    ((runnerMachine everyMinute true minuteDb).after (wholeTick 0 (seconds 61)))
    (.edit 0 traceFields (seconds 62))

theorem old_readings_end_minute :
    (runnerMachine everyMinute true minuteDb).count (oldReading 0 0 0) editedInFlight lateReading ≤
      (((runnerMachine everyMinute true minuteDb).after (wholeTick 0 (seconds 61))).state.replicas
        0).underway 0 0 := by
  have hsensors : ((runnerMachine everyMinute true minuteDb).after
      (wholeTick 0 (seconds 61))).state.db.sensors.map
      (fun row => (row.id, row.edition, row.settings == traceFields.settings)) = [(0, 0, false)] := by
    decide +kernel
  obtain ⟨row, hrows, hrow⟩ := List.map_eq_singleton_iff.mp hsensors
  obtain ⟨hid, hrest⟩ := Prod.mk.inj hrow
  obtain ⟨hedition, hsettings⟩ := Prod.mk.inj hrest
  have hend := (old_readings_end everyMinute true minuteDb (by decide) (wholeTick 0 (seconds 61))
    lateReading row traceFields (seconds 62) _ editedInFlight rfl (by rw [hid]; rfl)
    (by rw [hrows]; exact List.mem_cons_self) hsettings).2.2.1 0
  rw [hid, hedition] at hend
  exact hend

/-- The reading with the old settings makes the edited sensor critical, and enters its history. -/
theorem old_reading_recorded :
    (editedInFlight.state.db.sensors.map fun row => (row.edition, row.lastState)) =
        [(1, .unknown)] ∧
      (editedInFlight.state.db.history 0).map (·.state) = [] ∧
      let after := (runnerMachine everyMinute true minuteDb).run editedInFlight lateReading
      (after.state.db.sensors.map fun row => (row.edition, row.lastState)) = [(1, .critical)] ∧
        (after.state.db.history 0).map (·.state) = [.critical] ∧
        (runnerMachine everyMinute true minuteDb).count (oldReading 0 0 0) editedInFlight
          lateReading = 1 := by
  decide +kernel

end Meho.Checks
