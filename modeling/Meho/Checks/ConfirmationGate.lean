import Mathlib.Data.List.Induction
import Meho.Checks.Sensor
import Meho.Lib.Streak

/- The confirmation gate over the results of a sensor (checks/repository.py).

`recordSensorResult` loads the row and flushes what a result makes of it. Results come in any
order: the ones that are newer than every accepted one before are accepted
(`acceptedReadings`), the others change nothing. The row keeps the streak of the last accepted
state in its pending columns (`Reflects`), so its committed state and `stateSince` are what
`confirmed` says of the accepted readings: a state is committed by the reading that completes
`retryTimes + 1` of it in a row. -/
namespace Meho.Checks
open Meho.Lib

/-! ## Results in any order -/

/-- The arguments of `record_sensor_result`. -/
structure RecordCall where
  sensorId : Nat
  outcome : AssertionOutcome
  evaluatedAt : Time
  recordHistory : Bool

def recordSensorResult (db : SensorDb) (call : RecordCall) : SensorDb :=
  match db.get call.sensorId with
  | none => db
  | some row => flushRecord call.recordHistory db row call.outcome call.evaluatedAt

def recordAll (db : SensorDb) (calls : List RecordCall) : SensorDb :=
  calls.foldl recordSensorResult db

/-- One recorded reading, as the gate looks at it. -/
structure Reading where
  state : CheckState
  evaluatedAt : Time
  deriving DecidableEq, Repr

def RecordCall.reading (call : RecordCall) : Reading := ⟨call.outcome.state, call.evaluatedAt⟩

/-- The reading is newer than the last accepted one. -/
def Newer (accepted : List Reading) (r : Reading) : Prop :=
  ∀ last, accepted.getLast? = some last → last.evaluatedAt < r.evaluatedAt

instance (accepted : List Reading) (r : Reading) : Decidable (Newer accepted r) :=
  match h : accepted.getLast? with
  | none => .isTrue fun last hlast => by rw [h] at hlast; cases hlast
  | some last =>
    if hlt : last.evaluatedAt < r.evaluatedAt then
      .isTrue fun other hother => by rw [h] at hother; cases hother; exact hlt
    else .isFalse fun hnewer => hlt (hnewer last h)

/-- The results of a sensor that are newer than every accepted one before them. -/
def acceptedReadings (sensorId : Nat) (calls : List RecordCall) : List Reading :=
  calls.foldl (fun accepted call =>
    if call.sensorId = sensorId ∧ Newer accepted call.reading then accepted ++ [call.reading]
    else accepted) []

/-- The rows of the history of a sensor. -/
def SensorDb.readings (db : SensorDb) (sensorId : Nat) : List Reading :=
  (db.results.filter (·.sensorId = sensorId)).map fun result => ⟨result.state, result.evaluatedAt⟩

theorem recordAll_snoc (db : SensorDb) (calls : List RecordCall) (call : RecordCall) :
    recordAll db (calls ++ [call]) = recordSensorResult (recordAll db calls) call :=
  List.foldl_append

theorem acceptedReadings_snoc (sensorId : Nat) (calls : List RecordCall) (call : RecordCall) :
    acceptedReadings sensorId (calls ++ [call]) =
      if call.sensorId = sensorId ∧ Newer (acceptedReadings sensorId calls) call.reading then
        acceptedReadings sensorId calls ++ [call.reading]
      else acceptedReadings sensorId calls := List.foldl_append

/-- The accepted readings are strictly in the order of their instants. -/
theorem acceptedReadings_sorted (sensorId : Nat) (calls : List RecordCall) :
    (acceptedReadings sensorId calls).Pairwise fun a b => a.evaluatedAt < b.evaluatedAt := by
  induction calls using List.reverseRecOn with
  | nil => exact List.Pairwise.nil
  | append_singleton calls call ih =>
    rw [acceptedReadings_snoc]
    split
    · rename_i h
      refine List.pairwise_append.mpr ⟨ih, List.pairwise_singleton _ _, ?_⟩
      intro a ha b hb
      rw [List.mem_singleton.mp hb]
      obtain ⟨last, hlast⟩ :=
        Option.isSome_iff_exists.mp (List.getLast?_isSome.mpr (List.ne_nil_of_mem ha))
      have hnewer := h.2 last hlast
      rw [← List.dropLast_append_getLast? last hlast] at ha ih
      rcases List.mem_append.mp ha with ha | ha
      · exact Int.lt_trans ((List.pairwise_append.mp ih).2.2 a ha last List.mem_cons_self) hnewer
      · rw [List.mem_singleton.mp ha]
        exact hnewer
    · exact ih

/-! ## One result -/

/-- The streak that the pending columns hold of a state. -/
def Sensor.held (row : Sensor) (state : CheckState) : Nat :=
  if row.pendingState = some state then row.pendingCount else 0

/-- An accepted reading: the committed state stays and nothing is held; or the reading is held, one
more than before; or it is committed. -/
inductive Accepted (row : Sensor) (r : Reading) (row' : Sensor) : Prop
  | again (hstate : r.state = row.lastState)
      (hrow : row' = { row with
        lastEvaluatedAt := some r.evaluatedAt, pendingState := none, pendingCount := 0 })
  | held (hstate : r.state ≠ row.lastState) (hfew : row.held r.state + 1 ≤ row.retryTimes)
      (hrow : row' = { row with
        lastEvaluatedAt := some r.evaluatedAt, pendingState := some r.state,
        pendingCount := row.held r.state + 1 })
  | committed (hstate : r.state ≠ row.lastState) (hmany : row.retryTimes < row.held r.state + 1)
      (hrow : row' = { row with
        lastEvaluatedAt := some r.evaluatedAt, lastState := r.state,
        stateSince := some r.evaluatedAt, pendingState := none, pendingCount := 0 })

variable {row : Sensor} {r : Reading}

theorem record_accepted (h : row.isStale r.evaluatedAt = false) :
    ∃ row', row.record r.state r.evaluatedAt = some row' ∧ Accepted row r row' := by
  unfold Sensor.record
  rw [h, if_neg Bool.false_ne_true]
  refine ⟨_, rfl, ?_⟩
  unfold commitThroughConfirmationGate
  dsimp only
  by_cases hstate : r.state = row.lastState
  · rw [if_pos hstate]
    exact .again hstate rfl
  · rw [if_neg hstate]
    by_cases hpending : row.pendingState = some r.state
    · have hheld : row.held r.state = row.pendingCount := if_pos hpending
      simp only [hpending, if_true]
      by_cases hfew : row.pendingCount + 1 ≤ row.retryTimes
      · have hretry : 0 < row.retryTimes := by omega
        simp only [hretry, hfew, decide_true, Bool.and_self, if_true]
        refine .held hstate (by rw [hheld]; exact hfew) ?_
        rw [hheld, ← hpending]
      · simp only [hfew, decide_false, Bool.and_false, Bool.false_eq_true, if_false]
        exact .committed hstate (by rw [hheld]; omega) rfl
    · have hheld : row.held r.state = 0 := if_neg hpending
      simp only [hpending, if_false]
      by_cases hfew : 1 ≤ row.retryTimes
      · have hretry : 0 < row.retryTimes := hfew
        simp only [hretry, hfew, decide_true, Bool.and_self, if_true]
        exact .held hstate (by rw [hheld]; exact hfew) (by rw [hheld])
      · simp only [hfew, decide_false, Bool.and_false, Bool.false_eq_true, if_false]
        exact .committed hstate (by rw [hheld]; omega) rfl

theorem writeChanges_loaded {row' : Sensor} (h : Accepted row r row') :
    row.writeChanges row' row = row' := by
  have hwrite : ∀ {α : Type} [DecidableEq α] (a b : α), (if a = b then a else b) = b := by
    intro α _ a b
    split
    · assumption
    · rfl
  unfold Sensor.writeChanges
  simp only [hwrite]
  cases h with
  | again hstate hrow => rw [hrow]
  | held hstate hfew hrow => rw [hrow]
  | committed hstate hmany hrow => rw [hrow]

/-! ## The row after a run -/

/-- The row holds what the accepted readings say, counted from the row the sensor was created
with. -/
structure Reflects (first row : Sensor) (accepted : List Reading) : Prop where
  retryTimes : row.retryTimes = first.retryTimes
  lastEvaluatedAt : row.lastEvaluatedAt = accepted.getLast?.map (·.evaluatedAt)
  lastState : row.lastState =
    (confirmed Reading.state (first.retryTimes + 1) first.lastState accepted).value
  stateSince : row.stateSince =
    match (confirmed Reading.state (first.retryTimes + 1) first.lastState accepted).by_ with
    | some r => some r.evaluatedAt
    | none => first.stateSince
  held : ∀ s, s ≠ row.lastState → row.held s = streak (·.state = s) accepted
  few : ∀ s, s ≠ row.lastState → row.held s ≤ row.retryTimes

/-- A sensor without readings. -/
def Sensor.New (row : Sensor) : Prop := row.pendingState = none ∧ row.lastEvaluatedAt = none

theorem Reflects.new (h : row.New) : Reflects row row [] := by
  have hheld : ∀ s, row.held s = 0 := fun s => by
    rw [Sensor.held, h.1]
    rfl
  exact ⟨rfl, h.2, rfl, rfl, fun s _ => by rw [hheld, streak_nil],
    fun s _ => by rw [hheld]; exact Nat.zero_le _⟩

variable {first : Sensor}

theorem Reflects.isStale_iff {accepted : List Reading} (h : Reflects first row accepted)
    (r : Reading) : row.isStale r.evaluatedAt = false ↔ Newer accepted r := by
  rw [Sensor.isStale, h.lastEvaluatedAt]
  unfold Newer
  cases accepted.getLast? with
  | none => simp
  | some last => simp

theorem streak_other {s : CheckState} (h : s ≠ r.state) (accepted : List Reading) :
    streak (·.state = s) (accepted ++ [r]) = 0 :=
  streak_snoc_of_neg accepted (by simpa using Ne.symm h)

theorem streak_same (r : Reading) (accepted : List Reading) :
    streak (·.state = r.state) (accepted ++ [r]) = streak (·.state = r.state) accepted + 1 :=
  streak_snoc_of_pos accepted (by simp)

theorem Reflects.step {row' : Sensor} {accepted : List Reading} (h : Reflects first row accepted)
    (hacc : Accepted row r row') : Reflects first row' (accepted ++ [r]) := by
  have hlast : (accepted ++ [r]).getLast?.map (·.evaluatedAt) = some r.evaluatedAt := by simp
  have hnext := confirmed_snoc Reading.state (first.retryTimes + 1) first.lastState accepted r
  rw [Confirmed.next, ← h.lastState, streak_same] at hnext
  cases hacc with
  | again hstate hrow =>
    rw [if_neg fun hc => hc.1 hstate] at hnext
    have hheld : ∀ s, row'.held s = 0 := fun s => by rw [hrow]; rfl
    refine ⟨by rw [hrow]; exact h.retryTimes, by rw [hlast, hrow], by rw [hnext, hrow]; exact h.lastState,
      by rw [hnext, hrow]; exact h.stateSince, fun s hs => ?_, fun s hs => ?_⟩
    · have hne : s ≠ r.state := by
        rw [hstate]
        rw [hrow] at hs
        exact hs
      rw [hheld, streak_other hne]
    · rw [hheld]
      exact Nat.zero_le _
  | held hstate hfew hrow =>
    have hstreak := h.held r.state hstate
    have hretry := h.retryTimes
    rw [if_neg fun hc => by omega] at hnext
    have hsame : row'.held r.state = row.held r.state + 1 := by rw [hrow]; exact if_pos rfl
    -- only one state at a time is held back, with the length of its streak
    have hother : ∀ s, s ≠ r.state → row'.held s = 0 := fun s hs => by
      rw [hrow]
      exact if_neg fun heq => hs (Option.some.inj heq).symm
    refine ⟨by rw [hrow]; exact hretry, by rw [hlast, hrow], by rw [hnext, hrow]; exact h.lastState,
      by rw [hnext, hrow]; exact h.stateSince, fun s _ => ?_, fun s _ => ?_⟩
    · by_cases hs : s = r.state
      · rw [hs, hsame, streak_same, hstreak]
      · rw [hother s hs, streak_other hs]
    · by_cases hs : s = r.state
      · rw [hs, hsame, hrow]
        exact hfew
      · rw [hother s hs]
        exact Nat.zero_le _
  | committed hstate hmany hrow =>
    have hstreak := h.held r.state hstate
    have hbound := h.few r.state hstate
    have hretry := h.retryTimes
    -- the streak is long enough: the state is committed and nothing is held back
    rw [if_pos ⟨hstate, by omega⟩] at hnext
    have hheld : ∀ s, row'.held s = 0 := fun s => by rw [hrow]; rfl
    refine ⟨by rw [hrow]; exact hretry, by rw [hlast, hrow], by rw [hnext, hrow],
      by rw [hnext, hrow], fun s hs => ?_, fun s hs => ?_⟩
    · have hne : s ≠ r.state := by
        rw [hrow] at hs
        exact hs
      rw [hheld, streak_other hne]
    · rw [hheld]
      exact Nat.zero_le _

/-! ## The tables after a run -/

variable {db : SensorDb} {id : Nat}

theorem get_update {f : Sensor → Sensor} (hf : ∀ row, (f row).id = row.id) (other : Nat) :
    (db.update id f).get other =
      (db.get other).map fun row => if row.id = id then f row else row := by
  have hkept : ((fun row : Sensor => decide (row.id = other)) ∘
      fun row => if row.id = id then f row else row) = fun row => decide (row.id = other) := by
    funext row
    show decide ((if row.id = id then f row else row).id = other) = _
    split
    · rw [hf]
    · rfl
  rw [SensorDb.get, SensorDb.update, List.find?_map, hkept, SensorDb.get]

theorem get_row_id (h : db.get id = some row) : row.id = id := by
  unfold SensorDb.get at h
  simpa using List.find?_some h

variable {call : RecordCall}

theorem record_stale (hget : db.get call.sensorId = some row)
    (hstale : row.isStale call.evaluatedAt = true) : recordSensorResult db call = db := by
  simp only [recordSensorResult, hget, flushRecord, Sensor.record, hstale, if_true]

theorem record_newer (hget : db.get call.sensorId = some row)
    (hnewer : row.isStale call.evaluatedAt = false) :
    ∃ row', (recordSensorResult db call).get call.sensorId = some row' ∧
      Accepted row call.reading row' ∧
      (recordSensorResult db call).readings call.sensorId =
        db.readings call.sensorId ++ if call.recordHistory then [call.reading] else [] := by
  obtain ⟨row', hrecord, hacc⟩ := @record_accepted row call.reading hnewer
  have hrecord' : row.record call.outcome.state call.evaluatedAt = some row' := hrecord
  have hid := get_row_id hget
  have hflush : recordSensorResult db call = { db.update call.sensorId (row.writeChanges row') with
      results := if call.recordHistory then db.results ++ [⟨call.sensorId, call.evaluatedAt,
        call.outcome.state, call.outcome.value, call.outcome.evidence⟩] else db.results } := by
    simp only [recordSensorResult, hget, flushRecord, hrecord', hid]
  refine ⟨row', ?_, hacc, ?_⟩
  · rw [hflush]
    show (db.update call.sensorId (row.writeChanges row')).get call.sensorId = some row'
    rw [get_update (f := row.writeChanges row') fun _ => rfl, hget, Option.map_some, if_pos hid,
      writeChanges_loaded hacc]
  · rw [hflush]
    unfold SensorDb.readings
    cases call.recordHistory with
    | false => simp
    | true => simp [RecordCall.reading]

theorem record_other (hne : call.sensorId ≠ id) :
    (recordSensorResult db call).get id = db.get id ∧
      (recordSensorResult db call).readings id = db.readings id := by
  unfold recordSensorResult
  cases hget : db.get call.sensorId with
  | none => exact ⟨rfl, rfl⟩
  | some row =>
    have hid := get_row_id hget
    dsimp only [flushRecord]
    cases row.record call.outcome.state call.evaluatedAt with
    | none => exact ⟨rfl, rfl⟩
    | some row' =>
      constructor
      · show (db.update row.id (row.writeChanges row')).get id = db.get id
        rw [get_update (f := row.writeChanges row') fun _ => rfl]
        cases hother : db.get id with
        | none => rfl
        | some other =>
          rw [Option.map_some, if_neg]
          rw [get_row_id hother, hid]
          exact Ne.symm hne
      · have hrow : ¬ row.id = id := by rw [hid]; exact hne
        unfold SensorDb.readings
        cases call.recordHistory with
        | false => simp
        | true => simp [hrow]

/-- What a run of results keeps of a sensor and its history. -/
structure RunKeeps (first : Sensor) (id : Nat) (db : SensorDb) (accepted : List Reading)
    (row : Sensor) : Prop where
  get : db.get id = some row
  reflects : Reflects first row accepted
  history : (db.readings id).Sublist accepted

theorem run_keeps (hget : db.get id = some first) (hnew : first.New)
    (hhistory : db.readings id = []) (calls : List RecordCall) :
    ∃ row, RunKeeps first id (recordAll db calls) (acceptedReadings id calls) row := by
  induction calls using List.reverseRecOn with
  | nil => exact ⟨first, hget, .new hnew,
    by rw [recordAll, List.foldl_nil, hhistory]; exact List.nil_sublist _⟩
  | append_singleton calls call ih =>
    obtain ⟨row, hrow, hreflects, hsub⟩ := ih
    rw [recordAll_snoc, acceptedReadings_snoc]
    by_cases hid : call.sensorId = id
    · subst hid
      by_cases hnewer : Newer (acceptedReadings call.sensorId calls) call.reading
      · rw [if_pos ⟨rfl, hnewer⟩]
        obtain ⟨row', hrow', hacc, hhist⟩ :=
          record_newer hrow ((hreflects.isStale_iff call.reading).mpr hnewer)
        refine ⟨row', hrow', hreflects.step hacc, ?_⟩
        rw [hhist]
        refine hsub.append ?_
        split
        · exact List.Sublist.refl _
        · exact List.nil_sublist _
      · rw [if_neg fun h => hnewer h.2]
        have hstale : row.isStale call.evaluatedAt = true := by
          refine eq_true_of_ne_false fun hfresh => hnewer ?_
          exact (hreflects.isStale_iff call.reading).mp hfresh
        rw [record_stale hrow hstale]
        exact ⟨row, hrow, hreflects, hsub⟩
    · rw [if_neg fun h => hid h.1]
      obtain ⟨hsame, hhist⟩ := record_other hid
      exact ⟨row, by rw [hsame]; exact hrow, hreflects, by rw [hhist]; exact hsub⟩

/-- **The gate over a run of results, and one more.** The committed state and `stateSince` are those
of the reading that `confirmed` names; the history is accepted readings, in strict order of
their instants. The next result is accepted if it is newer than the last accepted one and
changes nothing otherwise. It changes the committed state exactly when it is accepted, is of
another state, and completes `retryTimes + 1` readings of it in a row: then its state is
committed, since its instant. -/
theorem confirmation_gate {db : SensorDb} {id : Nat} {first : Sensor}
    (hget : db.get id = some first) (hnew : first.New) (hhistory : db.readings id = [])
    (calls : List RecordCall) (next : RecordCall) (hid : next.sensorId = id) :
    let before := recordAll db calls
    let behind := recordAll db (calls ++ [next])
    let accepted := acceptedReadings id calls
    let gate := confirmed Reading.state (first.retryTimes + 1) first.lastState accepted
    ∃ row row', before.get id = some row ∧ behind.get id = some row' ∧
      accepted.Pairwise (fun a b => a.evaluatedAt < b.evaluatedAt) ∧
      (before.readings id).Sublist accepted ∧
      row.lastState = gate.value ∧
      (row.stateSince = match gate.by_ with
        | some r => some r.evaluatedAt
        | none => first.stateSince) ∧
      (¬ Newer accepted next.reading → behind = before) ∧
      (row'.lastState ≠ row.lastState ↔ Newer accepted next.reading ∧
        next.reading.state ≠ row.lastState ∧
        streak (·.state = next.reading.state) (accepted ++ [next.reading]) = first.retryTimes + 1) ∧
      (row'.lastState ≠ row.lastState →
        row'.lastState = next.reading.state ∧ row'.stateSince = some next.evaluatedAt) ∧
      (row'.lastState = row.lastState → row'.stateSince = row.stateSince) := by
  intro before behind accepted gate
  subst hid
  obtain ⟨row, hrow, hreflects, hsub⟩ := run_keeps hget hnew hhistory calls
  have hbehind : behind = recordSensorResult before next := recordAll_snoc db calls next
  by_cases hnewer : Newer accepted next.reading
  · obtain ⟨row', hrow', hacc, -⟩ :=
      record_newer hrow ((hreflects.isStale_iff next.reading).mpr hnewer)
    refine ⟨row, row', hrow, by rw [hbehind]; exact hrow', acceptedReadings_sorted _ calls, hsub,
      hreflects.lastState, hreflects.stateSince, fun h => absurd hnewer h, ?_, ?_, ?_⟩
    -- the three ways a newer reading is taken: the state again, held back, committed
    · have hstreak : streak (·.state = next.reading.state) (accepted ++ [next.reading]) =
          streak (·.state = next.reading.state) accepted + 1 := streak_same _ _
      have hretry := hreflects.retryTimes
      cases hacc with
      | again hstate hrow =>
        have hsame : row'.lastState = row.lastState := by rw [hrow]
        exact ⟨fun h => absurd hsame h, fun h => absurd hstate h.2.1⟩
      | held hstate hfew hrow =>
        have hsame : row'.lastState = row.lastState := by rw [hrow]
        have hheld := hreflects.held _ hstate
        refine ⟨fun h => absurd hsame h, fun ⟨_, _, hlong⟩ => ?_⟩
        rw [hstreak, ← hheld] at hlong
        omega
      | committed hstate hmany hrow =>
        have hlast : row'.lastState = next.reading.state := by rw [hrow]
        have hheld := hreflects.held _ hstate
        have hfew := hreflects.few _ hstate
        refine ⟨fun _ => ⟨hnewer, hstate, ?_⟩, fun _ => by rw [hlast]; exact hstate⟩
        rw [hstreak, ← hheld]
        omega
    · intro hchanged
      cases hacc with
      | again hstate hrow | held hstate hfew hrow => exact absurd (by rw [hrow]) hchanged
      | committed hstate hmany hrow => exact ⟨by rw [hrow], by rw [hrow]; rfl⟩
    · intro hsame
      cases hacc with
      | again hstate hrow => rw [hrow]
      | held hstate hfew hrow => rw [hrow]
      | committed hstate hmany hrow =>
        rw [hrow] at hsame
        exact absurd hsame hstate
  · have hstale : row.isStale next.evaluatedAt = true := by
      refine eq_true_of_ne_false fun hfresh => hnewer ?_
      exact (hreflects.isStale_iff next.reading).mp hfresh
    -- a stale reading writes nothing
    have hsame : behind = before := hbehind.trans (record_stale hrow hstale)
    exact ⟨row, row, hrow, by rw [hsame]; exact hrow, acceptedReadings_sorted _ calls, hsub,
      hreflects.lastState, hreflects.stateSince, fun _ => hsame,
      ⟨fun h => absurd rfl h, fun h => absurd h.1 hnewer⟩, fun h => absurd rfl h, fun _ => rfl⟩

/-! ## A sample -/

/-- A sensor that asks for one repetition. -/
def twiceSensor : Sensor where
  name := "ping"
  settings := ⟨"net", "ping", [], []⟩
  cadence := .cron "* * * * *" "UTC"
  severity := .critical
  id := 0
  target := none
  status := .active
  nextFireAt := none
  forSeconds := 0
  retryTimes := 1
  retryBackoffSeconds := 15
  lastState := .unknown
  lastEvaluatedAt := none
  stateSince := none
  pendingState := none
  pendingCount := 0
  edition := 0

def criticalAt (t : Time) : RecordCall := ⟨0, ⟨.critical, .null, []⟩, t, true⟩

theorem confirmation_gate_sample : ∃ row row',
    (recordAll ⟨[twiceSensor], []⟩ [criticalAt 10]).get 0 = some row ∧
    (recordAll ⟨[twiceSensor], []⟩ ([criticalAt 10] ++ [criticalAt 20])).get 0 = some row' ∧
    (row'.lastState ≠ row.lastState ↔ Newer [⟨.critical, 10⟩] ⟨.critical, 20⟩ ∧
      CheckState.critical ≠ row.lastState ∧
      streak (fun r : Reading => decide (r.state = .critical))
        [⟨.critical, 10⟩, ⟨.critical, 20⟩] = 2) := by
  obtain ⟨row, row', hrow, hrow', -, -, -, -, -, hchange, -⟩ :=
    @confirmation_gate ⟨[twiceSensor], []⟩ 0 twiceSensor rfl ⟨rfl, rfl⟩ rfl [criticalAt 10]
      (criticalAt 20) rfl
  exact ⟨row, row', hrow, hrow', hchange⟩

end Meho.Checks
