import Meho.Checks.Runner
import Meho.Scheduler.Once
import Meho.Lib.Agenda
import Meho.Lib.Handoff

/- Every instant of a sensor's schedule is dispatched once.

What a tick takes of the column `next_fire_at` it dispatches, and the advance asks
that the column still holds it. So an instant is dispatched again only if the column
holds it again. The advance moves the column forward, beyond everything that was taken
(`Ahead`). An edit and the earlier run of a pending sensor may move it back: their
clock was read before they came to the row. `Forward` is the condition under which
they do not.

A sensor that is being evaluated on a replica is left due by the tick of the replica,
and no snapshot that a tick has taken is dropped (`Tidy`). -/
namespace Meho.Checks
open Meho.Lib
open Meho.Scheduler (NextFireAfter)

/-! ## What a statement does to the schedule -/

/-- A sensor is due at its next run, unless it is paused. -/
def sensorAgenda : Agenda Sensor Time :=
  ⟨(·.id), fun row => if row.status = .active then row.nextFireAt else none⟩

/-- The tables before and after a statement that schedules only what is allowed. -/
def Reschedules (allowed : Nat → Time → Prop) (db db' : SensorDb) : Prop :=
  sensorAgenda.Moves allowed db.sensors db'.sensors

section Reschedules
variable (allowed : Nat → Time → Prop) (db : SensorDb)

theorem reschedules_update {sensorId : Nat} {f : Sensor → Sensor}
    (hid : ∀ row, (f row).id = row.id)
    (hdue : ∀ row t, row.id = sensorId → sensorAgenda.due (f row) = some t →
      sensorAgenda.due row = some t ∨ allowed sensorId t) :
    Reschedules allowed db (db.update sensorId f) := by
  refine .of_map ?_ ?_
  · intro row
    split
    · exact hid row
    · rfl
  · intro row _ t ht
    split at ht
    · rename_i heq
      have hok := hdue row t heq ht
      rw [← heq] at hok
      exact hok
    · exact .inl ht

theorem parkSensor_reschedules (sensorId : Nat) :
    Reschedules allowed db (parkSensor db sensorId) :=
  reschedules_update allowed db (fun _ => rfl) fun _ _ _ ht => by cases ht

theorem deleteSensor_reschedules (sensorId : Nat) :
    Reschedules allowed db (deleteSensor db sensorId) := .of_filter _

theorem accelerate_reschedules (sensorId : Nat) {notLaterThan : Time}
    (h : allowed sensorId notLaterThan) :
    Reschedules allowed db (accelerateSensorNextFire db sensorId notLaterThan) := by
  refine reschedules_update allowed db ?_ ?_
  · intro row
    split <;> rfl
  · intro row t _ ht
    split at ht
    · rename_i hlater
      rw [Bool.and_eq_true, decide_eq_true_eq] at hlater
      have hdue : sensorAgenda.due { row with nextFireAt := some notLaterThan } =
          some notLaterThan := if_pos hlater.1
      rw [hdue] at ht
      cases ht
      exact .inr h
    · exact .inl ht

theorem editSensor_reschedules (sensorId : Nat) (merged : SensorFields) {now : Time}
    (h : allowed sensorId now) : Reschedules allowed db (editSensor db sensorId merged now) := by
  refine reschedules_update allowed db ?_ ?_
  · intro row
    split <;> rfl
  · intro row t _ ht
    split at ht
    · exact .inl ht
    · cases ht
      exact .inr h

theorem flushRecord_reschedules (recordHistory : Bool) (loaded : Sensor)
    (outcome : AssertionOutcome) (evaluatedAt : Time) :
    Reschedules allowed db (flushRecord recordHistory db loaded outcome evaluatedAt) := by
  unfold flushRecord
  split
  · exact .refl _ allowed _
  · rename_i updated _
    exact reschedules_update allowed db (f := loaded.writeChanges updated) (fun _ => rfl)
      fun _ _ _ ht => .inl ht

theorem persistOutcome_reschedules (recordHistory : Bool) (loaded : Sensor)
    (outcome : AssertionOutcome) (evaluatedAt : Time)
    (h : allowed loaded.id (evaluatedAt + seconds loaded.retryBackoffSeconds)) :
    Reschedules allowed db (persistOutcome recordHistory db loaded outcome evaluatedAt) := by
  unfold persistOutcome
  split
  · exact .refl _ allowed _
  · have hflush := flushRecord_reschedules allowed db recordHistory loaded outcome evaluatedAt
    dsimp only
    split
    · exact Agenda.Moves.trans hflush (accelerate_reschedules allowed _ loaded.id h)
    · exact hflush

end Reschedules

/-! ## The advance -/

section Advance
variable {nextFireAfter : NextFireAfter} {db db' : SensorDb} {claimed : Sensor} {now : Time}

/-- The next run is after the one that fires. -/
theorem nextAfter_gt (hcron : nextFireAfter.Strict) {next : Time}
    (h : claimed.nextAfter nextFireAfter now = .ok next) : now < next := by
  unfold Sensor.nextAfter at h
  split at h
  · rename_i intervalSeconds bound _ _
    cases h
    have hpos : (0 : Int) < seconds intervalSeconds := by
      unfold intervalSecondsMin at bound
      show (0 : Int) < (intervalSeconds : Int) * 1000000
      omega
    exact Int.lt_add_of_pos_right now hpos
  · exact hcron _ _ _ _ h

/-- An advance is a conditional write that moves the row beyond the clock of the tick. -/
theorem advance_ok (hcron : nextFireAfter.Strict)
    (h : advanceSensorNextFire nextFireAfter db claimed now = .ok (some db')) :
    ∃ next, now < next ∧
      Agenda.cas claimed.matchesClaim (Sensor.advanced next) db.sensors = some db'.sensors := by
  unfold advanceSensorNextFire at h
  cases hnext : claimed.nextAfter nextFireAfter now with
  | error e =>
    rw [hnext] at h
    cases h
  | ok next =>
    rw [hnext] at h
    have hmap := Except.ok.inj h
    obtain ⟨sensors, hcas, rfl⟩ := Option.map_eq_some_iff.mp hmap
    exact ⟨next, nextAfter_gt hcron hnext, hcas⟩

theorem matchesClaim_due {row : Sensor} {t : Time} (ht : claimed.nextFireAt = some t)
    (h : claimed.matchesClaim row = true) :
    sensorAgenda.key row = claimed.id ∧ sensorAgenda.due row = some t := by
  unfold Sensor.matchesClaim at h
  simp only [Bool.and_eq_true, decide_eq_true_eq] at h
  exact ⟨h.1.1, (if_pos h.1.2).trans (h.2.trans ht)⟩

theorem due_advanced {row : Sensor} {next u : Time}
    (h : sensorAgenda.due (row.advanced next) = some u) : u = next := by
  unfold sensorAgenda Sensor.advanced at h
  dsimp only at h
  split at h
  · exact (Option.some.inj h).symm
  · cases h

theorem advance_ids (hcron : nextFireAfter.Strict) {t : Time} (ht : claimed.nextFireAt = some t)
    (hle : t ≤ now) (hids : (db.sensors.map (·.id)).Nodup)
    (h : advanceSensorNextFire nextFireAfter db claimed now = .ok (some db')) :
    (db'.sensors.map (·.id)).Nodup := by
  obtain ⟨next, hlt, hcas⟩ := advance_ok hcron h
  obtain ⟨-, hkeys, -⟩ := Agenda.cas_moves (A := sensorAgenda) (f := Sensor.advanced next)
    (k := claimed.id) (t := t) hids
    (fun _ => rfl) (fun _ => matchesClaim_due ht)
    (fun _ _ hu => by rw [due_advanced hu]; exact lt_of_le_of_lt hle hlt) hcas
  exact hkeys.nodup hids

end Advance

/-! ## Nothing is dropped -/

/-- The rows that a tick holds were due, no sensor stands twice in its lists, and what it has
taken is not being evaluated. -/
structure Replica.Tidy (r : Replica) : Prop where
  due : ∀ now rows toDispatch, r.stage = .claimed now rows toDispatch →
    ∀ row ∈ rows, ∃ t, row.nextFireAt = some t ∧ t ≤ now
  apart : (r.stage.rows.map (·.id) ++ r.stage.queue.map (·.id)).Nodup
  free : ∀ snap ∈ r.stage.queue, r.inFlight snap.id = none

/-- What every run of the replicas keeps. -/
structure Tidy (c : Config Runners RunnerEvent) : Prop where
  ids : (c.state.db.sensors.map (·.id)).Nodup
  replicas : ∀ p, (c.state.replicas p).Tidy
  undropped : ∀ sensorId instant, .dropped sensorId instant ∉ c.events

section Claim
variable {db : SensorDb} {now : Time} {locked : List Nat}

theorem claimDueSensors_due {row : Sensor} (h : row ∈ claimDueSensors db now locked) :
    ∃ t, row.nextFireAt = some t ∧ t ≤ now := by
  have hdue := (mem_claimDueSensors h).2
  unfold Sensor.isDue at hdue
  rw [Bool.and_eq_true] at hdue
  cases hnext : row.nextFireAt with
  | none =>
    rw [hnext] at hdue
    cases hdue.2
  | some t =>
    rw [hnext] at hdue
    exact ⟨t, rfl, of_decide_eq_true hdue.2⟩

theorem claimDueSensors_nodup (h : (db.sensors.map (·.id)).Nodup) :
    ((claimDueSensors db now locked).map (·.id)).Nodup := by
  unfold claimDueSensors
  refine List.Nodup.sublist (List.Sublist.map _ (List.take_sublist _ _)) ?_
  refine ((List.mergeSort_perm _ _).map _).nodup_iff.mpr ?_
  exact List.Nodup.sublist (List.Sublist.map _ List.filter_sublist) h

end Claim

section Stage
variable {s : Runners} {p : Nat}

theorem setStage_tidy {stage : TickStage} (h : ∀ q, (s.replicas q).Tidy)
    (hp : (⟨stage, (s.replicas p).inFlight⟩ : Replica).Tidy) :
    ∀ q, ((s.setStage p stage).replicas q).Tidy :=
  (Function.forall_update_iff s.replicas fun _ r => Replica.Tidy r).mpr ⟨hp, fun q _ => h q⟩

/-- An evaluation goes on, ends or begins; it is not one of a sensor that is queued. -/
theorem setEvaluation_tidy {sensorId : Nat} {e : Option Evaluation} (h : ∀ q, (s.replicas q).Tidy)
    (hfree : e.isSome = true → ∀ snap ∈ (s.replicas p).stage.queue, snap.id ≠ sensorId) :
    ∀ q, ((s.setEvaluation p sensorId e).replicas q).Tidy := by
  refine (Function.forall_update_iff s.replicas fun _ r => Replica.Tidy r).mpr
    ⟨⟨(h p).due, (h p).apart, ?_⟩, fun q _ => h q⟩
  intro snap hsnap
  by_cases heq : snap.id = sensorId
  · cases e with
    | none =>
      rw [heq]
      exact Function.update_self ..
    | some e => exact absurd heq (hfree rfl snap hsnap)
  · exact (Function.update_of_ne heq ..).trans ((h p).free snap hsnap)

/-- A sensor that is being evaluated is not queued. -/
theorem Replica.Tidy.not_queued {r : Replica} (h : r.Tidy) {sensorId : Nat} {e : Evaluation}
    (hflight : r.inFlight sensorId = some e) : ∀ snap ∈ r.stage.queue, snap.id ≠ sensorId := by
  intro snap hsnap heq
  have hnone := h.free snap hsnap
  rw [heq, hflight] at hnone
  cases hnone

theorem idle_tidy (inFlight : Nat → Option Evaluation) : (⟨.idle, inFlight⟩ : Replica).Tidy :=
  ⟨nofun, List.nodup_nil, nofun⟩

section
variable {now : Time} {row : Sensor} {rows : List Sensor} {toDispatch : List SensorSnapshot}
    (h : (s.replicas p).Tidy)
    (hstage : (s.replicas p).stage = .claimed now (row :: rows) toDispatch)
include h hstage

theorem pass_tidy : (⟨.claimed now rows toDispatch, (s.replicas p).inFlight⟩ : Replica).Tidy := by
  obtain ⟨hdue, hapart, hfree⟩ := h
  rw [hstage] at hapart hfree
  refine ⟨?_, (List.nodup_cons.mp hapart).2, hfree⟩
  intro now' rows' toDispatch' heq r hr
  cases heq
  exact hdue now (row :: rows) toDispatch hstage r (List.mem_cons_of_mem _ hr)

theorem take_tidy {instant : Time} (hfree : (s.replicas p).inFlight row.id = none) :
    (⟨.claimed now rows (toDispatch ++ [row.snapshot instant]),
      (s.replicas p).inFlight⟩ : Replica).Tidy := by
  have hpass := pass_tidy h hstage
  obtain ⟨hdue, hapart, hqueue⟩ := h
  rw [hstage] at hapart
  refine ⟨?_, ?_, ?_⟩
  · intro now' rows' toDispatch' heq r hr
    cases heq
    exact hdue now (row :: rows) toDispatch hstage r (List.mem_cons_of_mem _ hr)
  · have hperm : (rows.map (·.id) ++ (toDispatch ++ [row.snapshot instant]).map (·.id)).Perm
        (row.id :: (rows.map (·.id) ++ toDispatch.map (·.id))) := by
      rw [List.map_append, ← List.append_assoc]
      exact List.perm_append_comm
    exact hperm.nodup_iff.mpr hapart
  · intro snap hsnap
    rcases List.mem_append.mp hsnap with hsnap | hsnap
    · exact hpass.free snap hsnap
    · rw [List.mem_singleton.mp hsnap]
      exact hfree

end

/-- The tick has spawned, or skipped, its first snapshot. -/
theorem spawned_tidy {snap : SensorSnapshot} {rest : List SensorSnapshot}
    (h : (s.replicas p).Tidy) (hstage : (s.replicas p).stage = .spawning (snap :: rest)) :
    (⟨.spawning rest, (s.replicas p).inFlight⟩ : Replica).Tidy ∧
      ∀ later ∈ rest, later.id ≠ snap.id := by
  obtain ⟨-, hapart, hfree⟩ := h
  rw [hstage] at hapart hfree
  obtain ⟨hnot, hrest⟩ := List.nodup_cons.mp hapart
  refine ⟨⟨nofun, hrest, fun later hl => hfree later (List.mem_cons_of_mem _ hl)⟩, ?_⟩
  intro later hl heq
  exact hnot (List.mem_map.mpr ⟨later, hl, heq⟩)

end Stage

section Runs
variable {nextFireAfter : NextFireAfter} {recordHistory : Bool}

section
variable {events : List RunnerEvent}

theorem Tidy.of_quiet {s s' : Runners} (h : Tidy ⟨s, events⟩)
    (hids : (s'.db.sensors.map (·.id)).Sublist (s.db.sensors.map (·.id)))
    (hreplicas : ∀ p, (s'.replicas p).Tidy) : Tidy ⟨s', events ++ []⟩ :=
  ⟨hids.nodup h.ids, hreplicas, by rw [List.append_nil]; exact h.undropped⟩

theorem undropped_snoc {e : RunnerEvent}
    (h : ∀ sensorId instant, .dropped sensorId instant ∉ events)
    (he : ∀ sensorId instant, e ≠ .dropped sensorId instant) :
    ∀ sensorId instant, .dropped sensorId instant ∉ events ++ [e] := by
  intro sensorId instant hmem
  rcases List.mem_append.mp hmem with hmem | hmem
  · exact h sensorId instant hmem
  · exact he sensorId instant (List.mem_singleton.mp hmem).symm

theorem Tidy.move (hcron : nextFireAfter.Strict) {s s' : Runners} {a : RunnerAct}
    {es : List RunnerEvent} (h : Tidy ⟨s, events⟩)
    (hmove : RunnerMove nextFireAfter recordHistory s a s' es) : Tidy ⟨s', events ++ es⟩ := by
  have hsame := List.Sublist.refl (s.db.sensors.map (·.id))
  cases hmove with
  | stay => exact h.of_quiet hsame h.replicas
  | start p now =>
    exact h.of_quiet hsame (setStage_tidy h.replicas ⟨nofun, List.nodup_nil, nofun⟩)
  | quit _ p => exact h.of_quiet hsame (setStage_tidy h.replicas (idle_tidy _))
  | claim p now gotLock locked =>
    refine h.of_quiet hsame (setStage_tidy h.replicas ⟨?_, ?_, nofun⟩)
    · intro now' rows' toDispatch' heq row hrow
      cases heq
      exact claimDueSensors_due hrow
    · rw [TickStage.queue, List.map_nil, List.append_nil]
      exact claimDueSensors_nodup h.ids
  | pass _ p now row rows toDispatch hstage =>
    exact h.of_quiet hsame (setStage_tidy h.replicas (pass_tidy (h.replicas p) hstage))
  | park p now row rows toDispatch hstage =>
    have hdb := parkSensor_reschedules (fun _ _ => False) s.db row.id
    exact h.of_quiet hdb.keys (setStage_tidy h.replicas (pass_tidy (h.replicas p) hstage))
  | take p now row rows toDispatch db hstage hfree hadvance =>
    refine ⟨?_, setStage_tidy h.replicas (take_tidy (h.replicas p) hstage hfree),
      undropped_snoc h.undropped nofun⟩
    obtain ⟨t, ht, hle⟩ := (h.replicas p).due now (row :: rows) toDispatch hstage row
      List.mem_cons_self
    exact advance_ids hcron ht hle h.ids hadvance
  | toSpawn p now toDispatch hstage =>
    refine h.of_quiet hsame (setStage_tidy h.replicas ⟨nofun, ?_, ?_⟩)
    · have hapart := (h.replicas p).apart
      rw [hstage] at hapart
      exact hapart
    · have hfree := (h.replicas p).free
      rw [hstage] at hfree
      exact hfree
  | drop p snap rest hstage hbusy =>
    -- what a tick has taken is not being evaluated
    have hnone := (h.replicas p).free snap (by rw [hstage]; exact List.mem_cons_self)
    rw [hnone] at hbusy
    cases hbusy
  | spawn p snap rest hstage =>
    obtain ⟨htidy, hothers⟩ := spawned_tidy (h.replicas p) hstage
    refine ⟨h.ids, setEvaluation_tidy (setStage_tidy h.replicas htidy) ?_,
      undropped_snoc h.undropped nofun⟩
    intro _
    rw [Runners.setStage_self]
    exact hothers
  | evaluate p sensorId outcome evaluatedAt e hflight hrunning
  | load p sensorId outcome evaluatedAt e row hflight hevaluated hrow | gone p sensorId e hflight =>
    exact h.of_quiet hsame
      (setEvaluation_tidy h.replicas fun _ => (h.replicas p).not_queued hflight)
  | write p sensorId outcome evaluatedAt e row hflight hloaded =>
    have hdb := persistOutcome_reschedules (fun _ _ => True) s.db recordHistory row outcome
      evaluatedAt trivial
    exact h.of_quiet hdb.keys
      (setEvaluation_tidy h.replicas fun _ => (h.replicas p).not_queued hflight)
  | finish p sensorId => exact h.of_quiet hsame (setEvaluation_tidy h.replicas nofun)
  | edit sensorId merged now =>
    have hdb : Reschedules (fun _ _ => True) s.db (editSensor s.db sensorId merged now) :=
      editSensor_reschedules _ s.db sensorId merged trivial
    exact h.of_quiet hdb.keys h.replicas
  | delete sensorId =>
    have hdb := deleteSensor_reschedules (fun _ _ => True) s.db sensorId
    exact h.of_quiet hdb.keys h.replicas

end

/-! ## Nothing is dispatched twice -/

def RunnerEvent.taken? : RunnerEvent → Option (Nat × Time)
  | .taken sensorId instant => some (sensorId, instant)
  | _ => none

def RunnerEvent.dispatched? : RunnerEvent → Option (Nat × Time)
  | .dispatched sensorId instant => some (sensorId, instant)
  | _ => none

def SensorSnapshot.key (snap : SensorSnapshot) : Nat × Time := (snap.id, snap.instant)

/-- The instants as items that a tick takes and spawns. -/
def handoff (c : Config Runners RunnerEvent) : Handoff (Nat × Time) :=
  ⟨c.events.filterMap RunnerEvent.taken?, c.events.filterMap RunnerEvent.dispatched?,
    fun p => (c.state.replicas p).stage.queue.map SensorSnapshot.key⟩

theorem mem_taken {events : List RunnerEvent} {sensorId : Nat} {instant : Time} :
    (sensorId, instant) ∈ events.filterMap RunnerEvent.taken? ↔
      .taken sensorId instant ∈ events := by
  rw [List.mem_filterMap]
  constructor
  · rintro ⟨e, he, heq⟩
    cases e with
    | taken s t =>
      cases heq
      exact he
    | dispatched s t => cases heq
    | dropped s t => cases heq
  · exact fun he => ⟨_, he, rfl⟩

/-- What each replica has taken and not spawned yet. -/
def queues (s : Runners) (p : Nat) : List (Nat × Time) :=
  (s.replicas p).stage.queue.map SensorSnapshot.key

theorem queues_setStage (s : Runners) (p : Nat) (stage : TickStage) :
    queues (s.setStage p stage) =
      Function.update (queues s) p (stage.queue.map SensorSnapshot.key) := by
  funext q
  by_cases hq : q = p
  · subst hq
    rw [Function.update_self, queues, Runners.setStage_self]
  · rw [Function.update_of_ne hq, queues, Runners.setStage_of_ne hq]
    rfl

theorem queues_setEvaluation (s : Runners) (p sensorId : Nat) (e : Option Evaluation) :
    queues (s.setEvaluation p sensorId e) = queues s := by
  funext q
  unfold queues
  by_cases hq : q = p
  · subst hq
    rw [Runners.setEvaluation_self]
  · rw [Runners.setEvaluation_of_ne hq]

/-- A step that takes and spawns nothing. -/
theorem handoff_quiet {s s' : Runners} {events : List RunnerEvent} (h : queues s' = queues s) :
    handoff ⟨s', events ++ []⟩ = handoff ⟨s, events⟩ := by
  rw [List.append_nil]
  exact congrArg (Handoff.mk _ _) h

/-- A step that leaves a part of one queue. -/
theorem handoff_stage {s s' : Runners} {events : List RunnerEvent} {p : Nat} {stage : TickStage}
    (h : queues s' = queues (s.setStage p stage)) :
    handoff ⟨s', events ++ []⟩ =
      (handoff ⟨s, events⟩).shrink p (stage.queue.map SensorSnapshot.key) := by
  rw [List.append_nil]
  exact congrArg (Handoff.mk _ _) (h.trans (queues_setStage s p stage))

/-- **An edit, or the earlier run of a pending sensor, goes beyond what was taken**: the instant
it puts into the column is later than every instant of the sensor that a tick has taken. -/
def Forward (c : Config Runners RunnerEvent) : RunnerAct → Prop
  | .edit sensorId _ now => ∀ instant, .taken sensorId instant ∈ c.events → instant < now
  | .write p sensorId => ∀ e outcome evaluatedAt row,
    (c.state.replicas p).inFlight sensorId = some e → e.stage = .loaded outcome evaluatedAt row →
      ∀ instant, .taken row.id instant ∈ c.events →
        instant < evaluatedAt + seconds row.retryBackoffSeconds
  | _ => True

/-- Everything that was taken is behind the columns, and is spawned at most once. -/
structure Once (c : Config Runners RunnerEvent) : Prop where
  sound : (handoff c).Sound
  ahead : sensorAgenda.Ahead c.state.db.sensors (handoff c).taken

variable {s s' : Runners} {events es : List RunnerEvent} {a : RunnerAct}

/-- A step that writes no row and leaves a part of one queue. -/
theorem Once.restage (h : Once ⟨s, events⟩) (p : Nat) {stage : TickStage}
    (hqueue : stage.queue.Sublist (s.replicas p).stage.queue) :
    Once ⟨s.setStage p stage, events ++ []⟩ := by
  have hstage : handoff ⟨s.setStage p stage, events ++ []⟩ = _ := handoff_stage rfl
  constructor
  · rw [hstage]
    exact h.sound.shrink (hqueue.map _)
  · rw [hstage]
    exact h.ahead

/-- A step that writes rows, and no queue. -/
theorem Once.rewrite (h : Once ⟨s, events⟩) (hqueues : queues s' = queues s)
    {allowed : Nat → Time → Prop} (hdb : Reschedules allowed s.db s'.db)
    (hallowed : ∀ sensorId t, allowed sensorId t → ∀ instant,
      .taken sensorId instant ∈ events → instant < t) : Once ⟨s', events ++ []⟩ := by
  constructor
  · rw [handoff_quiet hqueues]
    exact h.sound
  · rw [handoff_quiet hqueues]
    exact h.ahead.moves hdb fun k t hok t' ht' => hallowed k t hok t' (mem_taken.mp ht')

/-- **A tick takes only what was not taken before**, and the column goes on. -/
theorem Once.take (hcron : nextFireAfter.Strict) (h : Once ⟨s, events⟩) (htidy : Tidy ⟨s, events⟩)
    {p : Nat} {now : Time} {row : Sensor} {rows : List Sensor} {toDispatch : List SensorSnapshot}
    {db : SensorDb} (hstage : (s.replicas p).stage = .claimed now (row :: rows) toDispatch)
    (hadvance : advanceSensorNextFire nextFireAfter s.db row now = .ok (some db)) :
    Once ⟨{ s with db := db }.setStage p
        (.claimed now rows (toDispatch ++ [row.snapshot (row.nextFireAt.getD now)])),
      events ++ [.taken row.id (row.nextFireAt.getD now)]⟩ := by
  obtain ⟨instant, hinstant, hle⟩ := (htidy.replicas p).due now (row :: rows) toDispatch hstage row
    List.mem_cons_self
  obtain ⟨next, hlt, hcas⟩ := advance_ok hcron hadvance
  have hget : row.nextFireAt.getD now = instant := by rw [hinstant]; rfl
  rw [hget]
  -- the compare-and-set takes the instant once and moves the row behind it
  obtain ⟨hnew, hahead⟩ := h.ahead.cas (f := Sensor.advanced next) (k := row.id) (t := instant)
    htidy.ids (fun _ => rfl)
    (fun _ => matchesClaim_due hinstant)
    (fun _ _ hu => by rw [due_advanced hu]; exact lt_of_le_of_lt hle hlt) hcas
  have htake : handoff ⟨{ s with db := db }.setStage p
      (.claimed now rows (toDispatch ++ [row.snapshot instant])),
      events ++ [.taken row.id instant]⟩ =
      (handoff ⟨s, events⟩).take p (row.id, instant) := by
    have hqueue : (handoff ⟨s, events⟩).queue p = toDispatch.map SensorSnapshot.key := by
      show queues s p = _
      unfold queues
      rw [hstage]
      rfl
    unfold Handoff.take
    rw [hqueue]
    refine congr (congrArg₂ Handoff.mk ?_ ?_) ?_
    · rw [List.filterMap_append]
      rfl
    · rw [List.filterMap_append]
      exact List.append_nil _
    · refine (queues_setStage { s with db := db } p _).trans ?_
      rw [TickStage.queue, List.map_append]
      rfl
  constructor
  · rw [htake]
    exact h.sound.take hnew
  · rw [htake]
    exact hahead

/-- A tick spawns what it has taken. -/
theorem Once.spawn (h : Once ⟨s, events⟩) {p : Nat} {snap : SensorSnapshot}
    {rest : List SensorSnapshot} (hstage : (s.replicas p).stage = .spawning (snap :: rest)) :
    Once ⟨(s.setStage p (.spawning rest)).setEvaluation p snap.id (some ⟨snap, .running⟩),
      events ++ [.dispatched snap.id snap.instant]⟩ := by
  have huse : handoff ⟨(s.setStage p (.spawning rest)).setEvaluation p snap.id
      (some ⟨snap, .running⟩), events ++ [.dispatched snap.id snap.instant]⟩ =
      (handoff ⟨s, events⟩).use p snap.key (rest.map SensorSnapshot.key) := by
    refine congr (congrArg₂ Handoff.mk ?_ ?_) ?_
    · rw [List.filterMap_append]
      exact List.append_nil _
    · rw [List.filterMap_append]
      rfl
    · exact (queues_setEvaluation _ p snap.id _).trans (queues_setStage s p _)
  constructor
  · rw [huse]
    refine h.sound.use ?_
    show queues s p = _
    unfold queues
    rw [hstage]
    rfl
  · rw [huse]
    exact h.ahead

theorem Once.move (hcron : nextFireAfter.Strict) (h : Once ⟨s, events⟩) (htidy : Tidy ⟨s, events⟩)
    (hmove : RunnerMove nextFireAfter recordHistory s a s' es) (hforward : Forward ⟨s, events⟩ a) :
    Once ⟨s', events ++ es⟩ := by
  have hsame : Reschedules (fun _ _ => False) s.db s.db := .refl _ _ _
  cases hmove with
  | stay => exact h.rewrite rfl hsame nofun
  | start p now | quit _ p | claim p now gotLock locked => exact h.restage p (List.nil_sublist _)
  | pass _ p now row rows toDispatch hstage | toSpawn p now toDispatch hstage =>
    exact h.restage p (by rw [hstage]; exact List.Sublist.refl _)
  | park p now row rows toDispatch hstage =>
    have hparked : Once ⟨{ s with db := parkSensor s.db row.id }, events ++ []⟩ :=
      h.rewrite rfl (parkSensor_reschedules (fun _ _ => False) s.db row.id) nofun
    rw [List.append_nil] at hparked
    refine hparked.restage p ?_
    show List.Sublist _ (s.replicas p).stage.queue
    rw [hstage]
    exact List.Sublist.refl _
  | take p now row rows toDispatch db hstage hfree hadvance =>
    exact h.take hcron htidy hstage hadvance
  | drop p snap rest hstage hbusy =>
    -- a sensor that was taken is free, so its dispatch is never dropped
    have hnone := (htidy.replicas p).free snap (by rw [hstage]; exact List.mem_cons_self)
    rw [hnone] at hbusy
    cases hbusy
  | spawn p snap rest hstage => exact h.spawn hstage
  | evaluate p sensorId outcome evaluatedAt e hflight hrunning
  | load p sensorId outcome evaluatedAt e row hflight hevaluated hrow | gone p sensorId e hflight =>
    exact h.rewrite (queues_setEvaluation s p sensorId _) hsame nofun
  | write p sensorId outcome evaluatedAt e row hflight hloaded =>
    refine h.rewrite (queues_setEvaluation _ p sensorId _) (persistOutcome_reschedules
      (fun id t => id = row.id ∧ t = evaluatedAt + seconds row.retryBackoffSeconds)
      s.db recordHistory row outcome evaluatedAt ⟨rfl, rfl⟩) ?_
    -- a retry is placed behind every instant that was taken before
    rintro _ _ ⟨rfl, rfl⟩ instant hmem
    exact hforward e outcome evaluatedAt row hflight hloaded instant hmem
  | finish p sensorId => exact h.rewrite (queues_setEvaluation s p sensorId _) hsame nofun
  | edit sensorId merged now =>
    refine h.rewrite rfl (editSensor_reschedules (fun id t => id = sensorId ∧ t = now) s.db
      sensorId merged ⟨rfl, rfl⟩) ?_
    rintro _ _ ⟨rfl, rfl⟩ instant hmem
    exact hforward instant hmem
  | delete sensorId =>
    exact h.rewrite rfl (deleteSensor_reschedules (fun _ _ => False) s.db sensorId) nofun

section
variable (hcron : nextFireAfter.Strict) {db : SensorDb} (hids : (db.sensors.map (·.id)).Nodup)
include hcron hids

theorem tidy_after (acts : List RunnerAct) :
    Tidy ((runnerMachine nextFireAfter recordHistory db).after acts) := by
  refine (runnerMachine nextFireAfter recordHistory db).run_induct ?_
    ⟨hids, fun _ => idle_tidy _, fun _ _ => List.not_mem_nil⟩ acts
  intro c a hc
  exact hc.move hcron (runnerStep_move nextFireAfter recordHistory c.state a)

/-- **No instant of a sensor is dispatched twice** in a run whose edits go forward. -/
theorem dispatched_once {acts : List RunnerAct}
    (hforward : (runnerMachine nextFireAfter recordHistory db).Along Forward (runnerMachine nextFireAfter recordHistory db).begin_ acts) :
    (((runnerMachine nextFireAfter recordHistory db).after acts).events.filterMap
      RunnerEvent.dispatched?).Nodup := by
  have hrun : Once ((runnerMachine nextFireAfter recordHistory db).after acts) ∧
      Tidy ((runnerMachine nextFireAfter recordHistory db).after acts) := by
    refine (runnerMachine nextFireAfter recordHistory db).along_induct
      (I := fun c => Once c ∧ Tidy c) ?_
      ⟨⟨Handoff.sound_empty, fun _ _ _ _ _ hmem => absurd hmem List.not_mem_nil⟩,
        hids, fun _ => idle_tidy _, fun _ _ => List.not_mem_nil⟩ hforward
    rintro c a ⟨honce, htidy⟩ ha
    have hmove := runnerStep_move nextFireAfter recordHistory c.state a
    exact ⟨honce.move hcron htidy hmove ha, htidy.move hcron hmove⟩
  exact hrun.1.sound.used_once

end

end Runs

/-! ## Both loops -/

section Loops
variable (nextFireAfter : NextFireAfter) (recordHistory : Bool) (sensors : SensorDb)
  (triggers : Scheduler.TriggerDb)

/-- The sensor runner and the scheduler of several replicas. -/
def loops : Machine (Runners × Scheduler.Schedulers) (RunnerAct ⊕ Scheduler.TriggerAct)
    (RunnerEvent ⊕ Scheduler.TriggerEvent) :=
  (runnerMachine nextFireAfter recordHistory sensors).pair
    (Scheduler.triggerMachine nextFireAfter triggers)

/-- A step of the runner that goes forward; the scheduler's steps always do. -/
def LoopsForward (c : Config (Runners × Scheduler.Schedulers) (RunnerEvent ⊕ Scheduler.TriggerEvent))
    (a : RunnerAct ⊕ Scheduler.TriggerAct) : Prop := ∀ x, a = .inl x → Forward c.left x

/-- **Every instant is dispatched once, and none that is due is lost.** In every interleaving of
the loops of several replicas with edits that go forward: no instant of a sensor or of a trigger
is dispatched twice; nothing that a tick has taken is dropped because the sensor is being
evaluated; and a tick that comes to a sensor which its replica is evaluating leaves it due. -/
theorem instants_once (hcron : nextFireAfter.Strict)
    (hsensors : (sensors.sensors.map (·.id)).Nodup) (htriggers : (triggers.map (·.id)).Nodup)
    (acts : List (RunnerAct ⊕ Scheduler.TriggerAct))
    (hforward : (loops nextFireAfter recordHistory sensors triggers).Along LoopsForward
      (loops nextFireAfter recordHistory sensors triggers).begin_ acts)
    (c : Config (Runners × Scheduler.Schedulers) (RunnerEvent ⊕ Scheduler.TriggerEvent))
    (hc : c = (loops nextFireAfter recordHistory sensors triggers).after acts) :
    (c.left.events.filterMap RunnerEvent.dispatched?).Nodup ∧
      (c.right.events.filterMap Scheduler.TriggerEvent.dispatched?).Nodup ∧
      (∀ sensorId instant, .dropped sensorId instant ∉ c.left.events) ∧
      ∀ p now row rows toDispatch,
        (c.state.1.replicas p).stage = .claimed now (row :: rows) toDispatch →
        ((c.state.1.replicas p).inFlight row.id).isSome = true →
        (runnerStep nextFireAfter recordHistory c.state.1 (.row p)).1.db = c.state.1.db := by
  have hrun := (runnerMachine nextFireAfter recordHistory sensors).pair_run
    (Scheduler.triggerMachine nextFireAfter triggers)
    (loops nextFireAfter recordHistory sensors triggers).begin_ acts
  have hleft : c.left = (runnerMachine nextFireAfter recordHistory sensors).after
      (acts.filterMap Sum.getLeft?) := by
    rw [hc]
    exact hrun.1
  have hright : c.right = (Scheduler.triggerMachine nextFireAfter triggers).after
      (acts.filterMap Sum.getRight?) := by
    rw [hc]
    exact hrun.2
  refine ⟨?_, ?_, ?_, ?_⟩
  · rw [hleft]
    exact dispatched_once hcron hsensors ((runnerMachine nextFireAfter recordHistory
      sensors).pair_along (Scheduler.triggerMachine nextFireAfter triggers) hforward)
  · rw [hright]
    exact Scheduler.dispatched_once hcron htriggers _
  · rw [hleft]
    exact (tidy_after hcron hsensors _).undropped
  · intro p now row rows toDispatch hstage hbusy
    simp only [runnerStep, tickRow, hstage, hbusy, if_true]
    rfl

end Loops

/-! ## An instant that is dispatched again -/

/-- Every full minute. -/
def everyMinute : NextFireAfter := fun _ base _ => .ok ((base / seconds 60 + 1) * seconds 60)

theorem everyMinute_strict : everyMinute.Strict := by
  intro expr base timezone next h
  cases h
  have hminute : ∀ b : Int, b < (b / 60000000 + 1) * 60000000 := by
    intro b
    omega
  exact hminute base

def minuteFields (name : String) : SensorFields :=
  ⟨name, ⟨"net", "ping", [], []⟩, .cron "* * * * *" "UTC", .critical⟩

/-- A sensor that is due at the first minute. -/
def minuteSensor : Sensor where
  toSensorFields := minuteFields "ping"
  id := 0
  target := none
  status := .active
  nextFireAt := some (seconds 60)
  forSeconds := 0
  retryTimes := 0
  retryBackoffSeconds := 15
  lastState := .unknown
  lastEvaluatedAt := none
  stateSince := none
  pendingState := none
  pendingCount := 0
  edition := 0

def minuteDb : SensorDb := ⟨[minuteSensor], []⟩

/-- A tick from its claim on: it goes through one row and spawns one evaluation. -/
def restOfTick (p : Nat) : List RunnerAct :=
  [.claim p true [], .row p, .row p, .spawn p, .spawn p]

def wholeTick (p : Nat) (now : Time) : List RunnerAct := .tick p now :: restOfTick p

theorem wholeTick_forward : (loops everyMinute true minuteDb []).Along LoopsForward
    (loops everyMinute true minuteDb []).begin_ ((wholeTick 0 (seconds 61)).map .inl) := by
  refine ⟨?_, ?_, ?_, ?_, ?_, ?_, trivial⟩ <;> (intro x hx; cases hx; trivial)

theorem instants_once_minute :
    (((loops everyMinute true minuteDb []).after ((wholeTick 0 (seconds 61)).map .inl)).left.events
      |>.filterMap RunnerEvent.dispatched?).Nodup :=
  (instants_once everyMinute true minuteDb [] everyMinute_strict (by decide) (by decide) _
    wholeTick_forward _ rfl).1

/-- Replica 1 reads its clock at 59 seconds and waits. Replica 0 dispatches the first minute, at
61 seconds. An edit whose clock was read at 58 seconds commits. Then the tick of replica 1 goes
on: it takes the instant of the edit, and sets the sensor to the first minute again. -/
def staleClock : List RunnerAct :=
  [.tick 1 (seconds 59)] ++ wholeTick 0 (seconds 61) ++
    [.finish 0 0, .edit 0 (minuteFields "renamed") (seconds 58)] ++ restOfTick 1 ++
    wholeTick 0 (seconds 62)

theorem minute_dispatched_twice :
    ((loops everyMinute true minuteDb []).after (staleClock.map .inl)).left.events.filterMap
      RunnerEvent.dispatched? = [(0, seconds 60), (0, seconds 58), (0, seconds 60)] := by
  decide +kernel

end Meho.Checks
