import Mathlib.Data.Int.Order.Basic
import Mathlib.Data.List.Induction
import Meho.Checks.Rollup

/- The hold time of a member over the history of its sensor.

A `Timeline` is a sensor from its creation on: the readings, and the other statements
that write its row, each at its instant. `Timeline.rowAt` is the row as of an instant and
`Timeline.raw` the raw state a dashboard derives from it.

`stateSince` is the instant of the reading that committed the state the row has, so
from then on the row has had no other committed state (`lastState_since`). A raw state
other than the committed one is unknown or skip, and is not ok either. So a member
whose committed state is not ok and that counts has not been ok for its hold time, or
since it was created (`counted_only_held`). Nothing is said of a member that is overdue
and whose committed state is ok: it has no `stateSince` of its own for being overdue. -/
namespace Meho.Checks

/-- What happens to the row of a sensor at an instant. -/
inductive SensorEvent where
  | record (state : CheckState)
  | schedule (nextFireAt : Option Time)
  | park
  | edit (merged : SensorFields)

def Sensor.apply (row : Sensor) (t : Time) : SensorEvent → Sensor
  | .record state => (row.record state t).getD row
  | .schedule nextFireAt => { row with nextFireAt := nextFireAt }
  | .park => { row with status := .paused }
  | .edit merged => if row.toSensorFields == merged then row else applyEdit row merged t

/-- A sensor and what happened to it, in the order of time. -/
structure Timeline where
  createdAt : Time
  first : Sensor
  events : List (Time × SensorEvent)
  created : first.lastState = .unknown ∧ first.lastEvaluatedAt = none ∧ first.stateSince = none
  ordered : (createdAt :: events.map (·.1)).Pairwise (· ≤ ·)

namespace Timeline

def play (row : Sensor) (events : List (Time × SensorEvent)) : Sensor :=
  events.foldl (fun row e => row.apply e.1 e.2) row

/-- The row as of an instant. -/
def rowAt (h : Timeline) (t : Time) : Sensor :=
  play h.first (h.events.takeWhile fun e => e.1 ≤ t)

/-- The raw state of the member as of an instant. -/
def raw (h : Timeline) (t : Time) : CheckState := deriveRaw (h.rowAt t).member t

/-- The raw state has not been ok from `t` to `now`. -/
def NonOk (h : Timeline) (t now : Time) : Prop := ∀ u, t ≤ u → u ≤ now → h.raw u ≠ .ok

/-- The raw state has not been ok for the time `hold`, in which the sensor existed. -/
def NonOkFor (h : Timeline) (hold now : Time) : Prop :=
  h.createdAt ≤ now - hold ∧ h.NonOk (now - hold) now

/-! ## The committed state and when it began -/

theorem apply_cases (row : Sensor) (t : Time) (e : SensorEvent) :
    ((row.apply t e).lastState = row.lastState ∧ (row.apply t e).stateSince = row.stateSince) ∨
      (row.apply t e).stateSince = some t := by
  cases e with
  | record state =>
    simp only [Sensor.apply]
    cases hrecord : row.record state t with
    | none => exact .inl ⟨rfl, rfl⟩
    | some row' =>
      obtain ⟨-, -, -, -, -, hcommit⟩ := record_cases hrecord
      rcases hcommit with hsame | hnew
      · exact .inl hsame
      · exact .inr hnew.2
  | schedule nextFireAt | park => exact .inl ⟨rfl, rfl⟩
  | edit merged =>
    simp only [Sensor.apply]
    split <;> exact .inl ⟨rfl, rfl⟩

theorem apply_sound {row : Sensor} (hrow : row.Sound) (t : Time) (e : SensorEvent) :
    (row.apply t e).Sound := by
  cases e with
  | record state =>
    simp only [Sensor.apply]
    cases hrecord : row.record state t with
    | none => exact hrow
    | some row' => exact record_sound hrecord
  | schedule nextFireAt | park => exact hrow
  | edit merged =>
    simp only [Sensor.apply]
    split <;> exact hrow

/-- **A row is sound at every instant.** -/
theorem rowAt_sound (h : Timeline) (t : Time) : (h.rowAt t).Sound := by
  have hplay : ∀ events : List (Time × SensorEvent), (play h.first events).Sound := by
    intro events
    induction events using List.reverseRecOn with
    | nil => exact fun _ => ⟨h.created.1, h.created.2.2⟩
    | append_singleton events e ih =>
      have hlast : play h.first (events ++ [e]) = (play h.first events).apply e.1 e.2 :=
        List.foldl_append
      rw [hlast]
      exact apply_sound ih e.1 e.2
  exact hplay _

/-- Events none of which committed the state that the row has in the end. -/
theorem play_keeps {row : Sensor} {events : List (Time × SensorEvent)}
    (h : ∀ e ∈ events, (play row events).stateSince ≠ some e.1) :
    (play row events).lastState = row.lastState ∧
      (play row events).stateSince = row.stateSince := by
  induction events using List.reverseRecOn with
  | nil => exact ⟨rfl, rfl⟩
  | append_singleton events e ih =>
    have hplay : play row (events ++ [e]) = (play row events).apply e.1 e.2 := List.foldl_append
    rw [hplay] at h ⊢
    rcases apply_cases (play row events) e.1 e.2 with ⟨hlast, hsince⟩ | hcommit
    · rw [hlast, hsince]
      refine ih ?_
      intro e' he'
      rw [← hsince]
      exact h e' (List.mem_append_left _ he')
    · exact absurd hcommit (h e (List.mem_append_right _ List.mem_cons_self))

/-- The events up to an instant, and those after it up to a later one. -/
theorem takeWhile_split {events : List (Time × SensorEvent)}
    (hordered : (events.map (·.1)).Pairwise (· ≤ ·)) {t now : Time} (hle : t ≤ now) :
    ∃ between, events.takeWhile (fun e => e.1 ≤ now) =
      events.takeWhile (fun e => e.1 ≤ t) ++ between ∧ ∀ e ∈ between, t < e.1 := by
  induction events with
  | nil => exact ⟨[], rfl, nofun⟩
  | cons e events ih =>
    rw [List.map_cons, List.pairwise_cons] at hordered
    by_cases het : e.1 ≤ t
    · obtain ⟨between, heq, hafter⟩ := ih hordered.2
      refine ⟨between, ?_, hafter⟩
      rw [List.takeWhile_cons, List.takeWhile_cons, if_pos (decide_eq_true (le_trans het hle)),
        if_pos (decide_eq_true het), heq, List.cons_append]
    · refine ⟨(e :: events).takeWhile (fun e => e.1 ≤ now), ?_, ?_⟩
      · have hnone : (e :: events).takeWhile (fun e => e.1 ≤ t) = [] := by
          rw [List.takeWhile_cons, if_neg fun h => het (of_decide_eq_true h)]
        rw [hnone, List.nil_append]
      · intro e' he'
        have hmem := (List.takeWhile_sublist _).subset he'
        rcases List.mem_cons.mp hmem with rfl | hmem
        · exact lt_of_not_ge het
        · exact lt_of_lt_of_le (lt_of_not_ge het)
            (hordered.1 e'.1 (List.mem_map.mpr ⟨e', hmem, rfl⟩))

variable (h : Timeline)

/-- **From `stateSince` on the row has had the committed state it has.** -/
theorem lastState_since {t now : Time} (hle : t ≤ now)
    (hsince : ∀ since, (h.rowAt now).stateSince = some since → since ≤ t) :
    (h.rowAt t).lastState = (h.rowAt now).lastState := by
  obtain ⟨between, heq, hafter⟩ := takeWhile_split (List.pairwise_cons.mp h.ordered).2 hle
  have hnow : h.rowAt now = play (h.rowAt t) between := by
    unfold rowAt
    rw [heq]
    exact List.foldl_append
  have hcommit : ∀ e ∈ between, (play (h.rowAt t) between).stateSince ≠ some e.1 := by
    intro e he hcommit
    rw [← hnow] at hcommit
    exact absurd (hsince e.1 hcommit) (not_le_of_gt (hafter e he))
  rw [hnow]
  exact (play_keeps hcommit).1.symm

/-- A committed state began after the sensor was created. -/
theorem createdAt_le_since {now since : Time} (hsince : (h.rowAt now).stateSince = some since) :
    h.createdAt ≤ since := by
  by_cases hevent : ∃ e ∈ h.events.takeWhile (fun e => e.1 ≤ now), e.1 = since
  · obtain ⟨e, he, rfl⟩ := hevent
    exact (List.pairwise_cons.mp h.ordered).1 e.1
      (List.mem_map.mpr ⟨e, (List.takeWhile_sublist _).subset he, rfl⟩)
  · have hcommit : ∀ e ∈ h.events.takeWhile (fun e => e.1 ≤ now),
        (play h.first (h.events.takeWhile fun e => e.1 ≤ now)).stateSince ≠ some e.1 := by
      intro e he hcommit
      exact hevent ⟨e, he, Option.some.inj (hcommit.symm.trans hsince)⟩
    have hnone := (play_keeps hcommit).2.trans h.created.2.2
    rw [rowAt, hnone] at hsince
    cases hsince

/-- A row whose committed state is not ok is not ok for a dashboard. -/
theorem raw_ne_ok {row : Sensor} (hstate : row.lastState ≠ .ok) (t : Time) :
    deriveRaw row.member t ≠ .ok := by
  unfold deriveRaw
  split
  · exact nofun
  · split
    · exact nofun
    · split
      · exact nofun
      · exact hstate

theorem nonOk_since {t now : Time} (hstate : (h.rowAt now).lastState ≠ .ok)
    (hsince : ∀ since, (h.rowAt now).stateSince = some since → since ≤ t) : h.NonOk t now := by
  intro u htu hun
  refine raw_ne_ok ?_ u
  rw [h.lastState_since hun fun since hs => le_trans (hsince since hs) htu]
  exact hstate

/-! ## The hold -/

/-- A member that counts has no `stateSince`, or one that is the hold time ago. -/
theorem since_of_counts {state : MemberState} {now : Time}
    (hok : (evaluateMember state now).effectiveState ≠ .ok)
    {since : Time} (hsince : state.stateSince = some since) :
    since ≤ now - seconds state.forSeconds ∨
      (evaluateMember state now).effectiveState = .skip := by
  cases hheld : state.held now with
  | true =>
    have hzero := effective_of_held hheld
    generalize (evaluateMember state now).effectiveState = effective at hok hzero
    cases effective with
    | ok => exact absurd rfl hok
    | skip => exact .inr rfl
    | degraded => cases hzero
    | critical => cases hzero
    | unknown => cases hzero
  | false =>
    unfold MemberState.held at hheld
    rw [hsince, Option.any_some] at hheld
    have hge := of_decide_eq_false hheld
    have harith : ∀ a b c : Int, ¬ a - b < c → b ≤ a - c := by
      intro a b c
      omega
    exact .inl (harith now since (seconds state.forSeconds) hge)

/-- **A member that counts has been non-ok for its hold time.** At every instant of every history,
a member whose committed state is not ok contributes a non-ok state only if its raw state has
been non-ok for the whole of the hold time, or no change of its state was ever committed and it
has been non-ok since it was created. -/
theorem counted_only_held (now : Time)
    (hok : (evaluateMember (h.rowAt now).member now).effectiveState ≠ .ok)
    (hskip : (evaluateMember (h.rowAt now).member now).effectiveState ≠ .skip)
    (hstate : (h.rowAt now).lastState ≠ .ok) :
    h.NonOkFor (seconds (h.rowAt now).forSeconds) now ∨
      ((h.rowAt now).stateSince = none ∧ h.NonOk h.createdAt now) := by
  cases hsince : (h.rowAt now).stateSince with
  | none =>
    refine .inr ⟨rfl, h.nonOk_since hstate ?_⟩
    intro since hs
    rw [hsince] at hs
    cases hs
  | some since =>
    have hheld : since ≤ now - seconds (h.rowAt now).forSeconds :=
      (since_of_counts hok hsince).resolve_right hskip
    refine .inl ⟨le_trans (h.createdAt_le_since hsince) hheld, h.nonOk_since hstate ?_⟩
    intro since' hs
    rw [hsince] at hs
    cases hs
    exact hheld

end Timeline

/-- The sensor with a hold of five minutes, as it is created. -/
def freshSensor : Sensor :=
  { heldSensor with
    nextFireAt := some (seconds 60)
    lastState := .unknown
    lastEvaluatedAt := none
    stateSince := none }

/-- The first reading is critical. -/
def firstCritical : Timeline where
  createdAt := seconds 0
  first := freshSensor
  events := [(seconds 60, .record .critical), (seconds 60, .schedule (some (seconds 900)))]
  created := ⟨rfl, rfl, rfl⟩
  ordered := by decide

theorem counted_only_held_critical :
    firstCritical.NonOkFor (seconds (firstCritical.rowAt (seconds 400)).forSeconds) (seconds 400) ∨
      ((firstCritical.rowAt (seconds 400)).stateSince = none ∧
        firstCritical.NonOk firstCritical.createdAt (seconds 400)) :=
  firstCritical.counted_only_held (seconds 400) (by decide) (by decide) (by decide)

/-- Nothing has happened yet. -/
def notEvaluated : Timeline where
  createdAt := seconds 0
  first := freshSensor
  events := []
  created := ⟨rfl, rfl, rfl⟩
  ordered := by decide

/-- A sensor that was never evaluated counts one second after it was created. -/
theorem not_evaluated_counts :
    (evaluateMember (notEvaluated.rowAt (seconds 1)).member (seconds 1)).effectiveState =
        .degraded ∧
      ¬ notEvaluated.NonOkFor (seconds (notEvaluated.rowAt (seconds 1)).forSeconds) (seconds 1) := by
  refine ⟨by decide, ?_⟩
  intro hheld
  exact absurd hheld.1 (by decide)

end Meho.Checks
