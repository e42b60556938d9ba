import Mathlib.Order.Bounds.Basic
import Meho.Checks.Sensor

/- The rollup of a dashboard (checks/rollup.py).

A dashboard has sensors as its members. What a member counts for is derived from its
row and the clock: a paused sensor is left out, one that was never evaluated or is
overdue is unknown, and a failing state counts once it has held for `forSeconds`.
The worst of what the members count for is the state of the dashboard.

`badness` is how bad a state is for a dashboard. The rollup is as bad as the worst of
its members (`rollup_worst`), and does not get better by the clock alone
(`rollup_mono`).

A reading that makes a member worse starts its hold anew, so for the time of the hold
the member counts as ok. `worse_reading_keeps_rollup` says when this makes the
dashboard better.

Correspondence: `evaluate_member` ↔ `evaluateMember`, `fold` and `rollup` keep their
names, `_member_state` ↔ `Sensor.member`; what is not listed keeps its name. -/
namespace Meho.Checks

/-! ## Members -/

structure MemberState where
  lastState : CheckState
  status : SensorStatus
  severity : SensorSeverity
  forSeconds : Nat
  lastEvaluatedAt : Option Time
  nextFireAt : Option Time
  stateSince : Option Time

def Sensor.member (row : Sensor) : MemberState :=
  ⟨row.lastState, row.status, row.severity, row.forSeconds, row.lastEvaluatedAt, row.nextFireAt,
    row.stateSince⟩

/-- A member's state before and after its hold. -/
structure MemberEvaluation where
  rawState : CheckState
  effectiveState : CheckState
  pending : Bool
  deriving DecidableEq, Repr

/-- `_STALE_GRACE_SECONDS`. -/
def staleGraceSeconds : Nat := 60

/-- `_FOLD_ORDER`. The source has no entry for the last two: they are never compared. -/
def foldOrder : CheckState → Nat
  | .ok => 0
  | .degraded => 1
  | .critical => 2
  | .unknown => 0
  | .skip => 0

def SensorSeverity.toState : SensorSeverity → CheckState
  | .degraded => .degraded
  | .critical => .critical

def cap (state : CheckState) (severity : SensorSeverity) : CheckState :=
  if foldOrder state ≤ foldOrder severity.toState then state else severity.toState

def MemberState.overdue (state : MemberState) (now : Time) : Bool :=
  state.nextFireAt.any fun nextFireAt => nextFireAt + seconds staleGraceSeconds < now

def deriveRaw (state : MemberState) (now : Time) : CheckState :=
  if state.status = .paused then .skip
  else if state.lastEvaluatedAt.isNone then .unknown
  else if state.overdue now then .unknown
  else state.lastState

/-- The state has not held for `forSeconds` yet. Without `stateSince` nothing is held. -/
def MemberState.held (state : MemberState) (now : Time) : Bool :=
  state.stateSince.any fun since => now - since < seconds state.forSeconds

/-- What a failing state counts for. -/
def contribution (raw : CheckState) : CheckState := if raw = .unknown then .degraded else raw

def evaluateMember (state : MemberState) (now : Time) : MemberEvaluation :=
  let raw := deriveRaw state now
  if raw = .skip then ⟨.skip, .skip, false⟩
  else if raw = .ok then ⟨.ok, .ok, false⟩
  else if state.held now then ⟨raw, .ok, true⟩
  else ⟨raw, cap (contribution raw) state.severity, false⟩

/-- The worst contribution; `max` keeps the first of equals. -/
def fold (evaluations : List MemberEvaluation) : CheckState :=
  if evaluations.isEmpty then .unknown
  else
    match evaluations.filter (·.effectiveState ≠ .skip) with
    | [] => .skip
    | first :: rest =>
      (rest.foldl (fun worst e =>
        if foldOrder worst.effectiveState < foldOrder e.effectiveState then e else worst)
        first).effectiveState

def rollup (members : List MemberState) (now : Time) : CheckState :=
  fold (members.map fun m => evaluateMember m now)

/-! ## How bad a state is -/

/-- A paused member does not count, an unknown one counts as degraded. -/
def badness : CheckState → Nat
  | .ok => 0
  | .skip => 0
  | .degraded => 1
  | .unknown => 1
  | .critical => 2

theorem badness_le_two (state : CheckState) : badness state ≤ 2 := by
  cases state <;> decide

/-- What is compared is in the order of `badness`. -/
theorem foldOrder_eq_badness {state : CheckState} (h : state ≠ .unknown) :
    foldOrder state = badness state := by
  cases state with
  | unknown => exact absurd rfl h
  | _ => rfl

section Member
variable {state : MemberState} {now : Time}

theorem effective_of_ok (h : badness (deriveRaw state now) = 0) :
    badness (evaluateMember state now).effectiveState = 0 := by
  unfold evaluateMember
  dsimp only
  generalize deriveRaw state now = raw at h
  cases raw with
  | ok => rfl
  | skip => rfl
  | degraded => cases h
  | critical => cases h
  | unknown => cases h

theorem effective_of_held (hheld : state.held now = true) :
    badness (evaluateMember state now).effectiveState = 0 := by
  unfold evaluateMember
  dsimp only
  split
  · rfl
  · split
    · rfl
    · rfl

theorem effective_of_firing (hraw : 0 < badness (deriveRaw state now))
    (hheld : state.held now = false) :
    (evaluateMember state now).effectiveState =
      cap (contribution (deriveRaw state now)) state.severity := by
  unfold evaluateMember
  dsimp only
  generalize deriveRaw state now = raw at hraw
  rw [hheld]
  cases raw with
  | ok | skip => exact absurd hraw (Nat.lt_irrefl 0)
  | _ => rfl

theorem badness_cap {raw : CheckState} (hraw : 0 < badness raw) (severity : SensorSeverity) :
    0 < badness (cap (contribution raw) severity) ∧
      badness (cap (contribution raw) severity) ≤ badness raw := by
  cases raw with
  | ok | skip => exact absurd hraw (Nat.lt_irrefl 0)
  | _ => cases severity <;> decide

theorem effective_ne_unknown : (evaluateMember state now).effectiveState ≠ .unknown := by
  unfold evaluateMember
  dsimp only
  generalize deriveRaw state now = raw
  generalize state.severity = severity
  generalize state.held now = held
  cases raw <;> cases severity <;> cases held <;> decide

theorem effective_le_raw :
    badness (evaluateMember state now).effectiveState ≤ badness (deriveRaw state now) := by
  rcases Nat.eq_zero_or_pos (badness (deriveRaw state now)) with hraw | hraw
  · rw [effective_of_ok hraw]
    exact Nat.zero_le _
  · cases hheld : state.held now with
    | true =>
      rw [effective_of_held hheld]
      exact Nat.zero_le _
    | false =>
      rw [effective_of_firing hraw hheld]
      exact (badness_cap hraw state.severity).2

end Member

/-! ## The worst of the members -/

/-- What the fold picks is one of its operands, and none is worse. -/
theorem foldl_worst (first : MemberEvaluation) (rest : List MemberEvaluation) :
    let worst := rest.foldl (fun worst e =>
      if foldOrder worst.effectiveState < foldOrder e.effectiveState then e else worst) first
    worst ∈ first :: rest ∧
      ∀ e ∈ first :: rest, foldOrder e.effectiveState ≤ foldOrder worst.effectiveState := by
  induction rest generalizing first with
  | nil =>
    refine ⟨List.mem_cons_self, ?_⟩
    intro e he
    rw [List.mem_singleton.mp he]
    exact Nat.le_refl _
  | cons next rest ih =>
    rw [List.foldl_cons]
    split
    · rename_i hlt
      obtain ⟨hmem, hmax⟩ := ih next
      refine ⟨List.mem_cons_of_mem _ hmem, ?_⟩
      intro e he
      rcases List.mem_cons.mp he with rfl | he
      · exact Nat.le_trans (Nat.le_of_lt hlt) (hmax next List.mem_cons_self)
      · exact hmax e he
    · rename_i hge
      obtain ⟨hmem, hmax⟩ := ih first
      refine ⟨?_, ?_⟩
      · rcases List.mem_cons.mp hmem with hmem | hmem
        · exact List.mem_cons.mpr (.inl hmem)
        · exact List.mem_cons_of_mem _ (List.mem_cons_of_mem _ hmem)
      · intro e he
        rcases List.mem_cons.mp he with rfl | he
        · exact hmax e List.mem_cons_self
        · rcases List.mem_cons.mp he with rfl | he
          · exact Nat.le_trans (Nat.le_of_not_lt hge) (hmax first List.mem_cons_self)
          · exact hmax e (List.mem_cons_of_mem _ he)

/-- The fold is as bad as the worst of what it is given. -/
theorem fold_worst {es : List MemberEvaluation} (hne : es ≠ [])
    (hknown : ∀ e ∈ es, e.effectiveState ≠ .unknown) :
    IsGreatest { n | ∃ e ∈ es, badness e.effectiveState = n } (badness (fold es)) := by
  have hempty : es.isEmpty = false := by
    rw [List.isEmpty_eq_false_iff]
    exact hne
  unfold fold
  rw [hempty, if_neg Bool.false_ne_true]
  cases hfilter : es.filter (·.effectiveState ≠ .skip) with
  | nil =>
    -- everyone is paused
    have hskip : ∀ e ∈ es, e.effectiveState = .skip := by
      intro e he
      have hnot := List.filter_eq_nil_iff.mp hfilter e he
      exact Decidable.not_not.mp fun h => hnot (decide_eq_true h)
    obtain ⟨e, he⟩ := List.exists_mem_of_ne_nil es hne
    refine ⟨⟨e, he, by rw [hskip e he]⟩, ?_⟩
    rintro n ⟨e', he', rfl⟩
    rw [hskip e' he']
  | cons first rest =>
    obtain ⟨hmem, hmax⟩ := foldl_worst first rest
    rw [← hfilter] at hmem hmax
    have hworst := List.mem_of_mem_filter hmem
    refine ⟨⟨_, hworst, rfl⟩, ?_⟩
    rintro n ⟨e, he, rfl⟩
    by_cases hskip : e.effectiveState = .skip
    · rw [hskip]
      exact Nat.zero_le _
    · have hle := hmax e (List.mem_filter.mpr ⟨he, decide_eq_true hskip⟩)
      rw [foldOrder_eq_badness (hknown e he), foldOrder_eq_badness (hknown _ hworst)] at hle
      exact hle

/-- What a member counts for. -/
def counts (m : MemberState) (now : Time) : Nat := badness (evaluateMember m now).effectiveState

variable {members : List MemberState}

theorem rollup_worst (hne : members ≠ []) (now : Time) :
    IsGreatest { n | ∃ m ∈ members, counts m now = n } (badness (rollup members now)) := by
  have hsome : (members.map fun m => evaluateMember m now) ≠ [] :=
    fun h => hne (List.map_eq_nil_iff.mp h)
  have hknown : ∀ e ∈ members.map fun m => evaluateMember m now,
      e.effectiveState ≠ .unknown := by
    intro e he
    obtain ⟨m, -, rfl⟩ := List.mem_map.mp he
    exact effective_ne_unknown
  obtain ⟨⟨e, he, heq⟩, hmax⟩ := fold_worst hsome hknown
  obtain ⟨m, hm, rfl⟩ := List.mem_map.mp he
  refine ⟨⟨m, hm, heq⟩, ?_⟩
  rintro n ⟨m', hm', rfl⟩
  exact hmax ⟨_, List.mem_map.mpr ⟨m', hm', rfl⟩, rfl⟩

theorem counts_le_rollup {m : MemberState} (hm : m ∈ members) (now : Time) :
    counts m now ≤ badness (rollup members now) :=
  (rollup_worst (List.ne_nil_of_mem hm) now).2 ⟨m, hm, rfl⟩

theorem rollup_le (hne : members ≠ []) {now : Time} {n : Nat} (h : ∀ m ∈ members, counts m now ≤ n) :
    badness (rollup members now) ≤ n := by
  obtain ⟨⟨m, hm, heq⟩, -⟩ := rollup_worst hne now
  rw [← heq]
  exact h m hm

/-! ## A clock that goes on -/

section Clock
variable {now later : Time}

variable {m : MemberState}

section
variable (hle : now ≤ later)
include hle

theorem overdue_mono (h : m.overdue now = true) : m.overdue later = true := by
  unfold MemberState.overdue at h ⊢
  obtain ⟨next, hnext, hlate⟩ := (Option.any_eq_true _ _).mp h
  refine (Option.any_eq_true _ _).mpr ⟨next, hnext, decide_eq_true ?_⟩
  exact Int.lt_of_lt_of_le (of_decide_eq_true hlate) hle

theorem held_mono (h : m.held later = true) : m.held now = true := by
  unfold MemberState.held at h ⊢
  obtain ⟨since, hsince, hyoung⟩ := (Option.any_eq_true _ _).mp h
  refine (Option.any_eq_true _ _).mpr ⟨since, hsince, decide_eq_true ?_⟩
  exact Int.lt_of_le_of_lt (Int.sub_le_sub_right hle since) (of_decide_eq_true hyoung)

theorem counts_mono (hoverdue : m.overdue later = true → m.overdue now = true) :
    counts m now ≤ counts m later := by
  have hsame : m.overdue later = m.overdue now :=
    Bool.eq_iff_iff.mpr ⟨hoverdue, overdue_mono hle⟩
  have hraw : deriveRaw m later = deriveRaw m now := by
    unfold deriveRaw
    rw [hsame]
  cases hheld : m.held now with
  | true =>
    unfold counts
    rw [effective_of_held hheld]
    exact Nat.zero_le _
  | false =>
    have hlater : m.held later = false :=
      Bool.eq_false_of_not_eq_true fun h => Bool.false_ne_true (hheld.symm.trans (held_mono hle h))
    have hsame' : evaluateMember m now = evaluateMember m later := by
      unfold evaluateMember
      rw [hraw, hheld, hlater]
    unfold counts
    rw [hsame']

/-- **A dashboard does not get better by the clock alone**, unless a member becomes overdue. -/
theorem rollup_mono {members : List MemberState}
    (hoverdue : ∀ m ∈ members, m.overdue later = true → m.overdue now = true) :
    badness (rollup members now) ≤ badness (rollup members later) := by
  cases hmembers : members with
  | nil => exact Nat.le_refl _
  | cons first rest =>
    rw [← hmembers]
    refine rollup_le (by rw [hmembers]; exact List.cons_ne_nil _ _) ?_
    intro m hm
    exact Nat.le_trans (counts_mono hle (hoverdue m hm)) (counts_le_rollup hm later)

end

end Clock

/-! ## A reading that makes a member worse -/

/-- A row that was not evaluated yet is as it was created. -/
def Sensor.Sound (row : Sensor) : Prop :=
  row.lastEvaluatedAt = none → row.lastState = .unknown ∧ row.stateSince = none

section Reading
variable {row row' : Sensor} {state : CheckState} {now : Time}

theorem record_sound (h : row.record state now = some row') : row'.Sound := by
  intro hnone
  rw [(record_cases h).1] at hnone
  cases hnone

/-- Where a row was not evaluated or is overdue, its committed state does not show. -/
theorem deriveRaw_eq (hsound : row.Sound) :
    deriveRaw row.member now =
      if row.status = .paused then .skip
      else if row.member.overdue now then .unknown else row.lastState := by
  show (if row.status = .paused then CheckState.skip
    else if row.lastEvaluatedAt.isNone then .unknown
    else if row.member.overdue now then .unknown else row.lastState) = _
  cases hevaluated : row.lastEvaluatedAt with
  | none =>
    rw [(hsound hevaluated).1, ite_self]
    rfl
  | some t => rfl

section
variable (hsound : row.Sound) (hrecord : row.record state now = some row')
    (hworse : badness (deriveRaw row.member now) < badness (deriveRaw row'.member now))
include hsound hrecord hworse

theorem worse_committed : row'.stateSince = some now ∧ row'.forSeconds = row.forSeconds := by
  obtain ⟨-, hstatus, -, hfor, hnext, hcommit⟩ := record_cases hrecord
  refine ⟨?_, hfor⟩
  have hoverdue : row'.member.overdue now = row.member.overdue now := by
    show row'.nextFireAt.any _ = row.nextFireAt.any _
    rw [hnext]
  rw [deriveRaw_eq hsound, deriveRaw_eq (record_sound hrecord), hstatus, hoverdue] at hworse
  rcases hcommit with ⟨hlast, -⟩ | ⟨-, hsince⟩
  · rw [hlast] at hworse
    exact absurd hworse (Nat.lt_irrefl _)
  · exact hsince

theorem counts_of_worse :
    if row.forSeconds = 0 then counts row.member now ≤ counts row'.member now
    else counts row'.member now = 0 := by
  obtain ⟨hsince, hfor⟩ := worse_committed hsound hrecord hworse
  have hheld : row'.member.held now = decide (0 < row.forSeconds) := by
    show row'.stateSince.any (fun since => decide (now - since < seconds row'.forSeconds)) = _
    rw [hsince, hfor, Option.any_some]
    have hzero : ∀ n : Int, n - n < (row.forSeconds : Int) * 1000000 ↔ 0 < row.forSeconds := by
      intro n
      omega
    exact decide_eq_decide.mpr (hzero now)
  split
  · rename_i hzero
    rw [hzero] at hheld
    have hraw : 0 < badness (deriveRaw row'.member now) := Nat.lt_of_le_of_lt (Nat.zero_le _) hworse
    have hafter : 0 < counts row'.member now := by
      unfold counts
      rw [effective_of_firing hraw hheld]
      exact (badness_cap hraw _).1
    -- the state before was at most degraded, for it got worse
    have hbefore : counts row.member now ≤ badness (deriveRaw row.member now) := effective_le_raw
    have htwo := badness_le_two (deriveRaw row'.member now)
    omega
  · rename_i hpos
    have hheld' : row'.member.held now = true := by
      rw [hheld]
      exact decide_eq_true (Nat.pos_of_ne_zero hpos)
    exact effective_of_held hheld'

end

/-- The state of the dashboard as the worst of one member and the others. -/
theorem rollup_split (front behind : List Sensor) (row : Sensor) (now : Time) (n : Nat) :
    n ≤ badness (rollup ((front ++ row :: behind).map Sensor.member) now) ↔
      n ≤ counts row.member now ∨ n = 0 ∨
        ∃ other ∈ front ++ behind, n ≤ counts other.member now := by
  have hmem : ∀ other, other ∈ front ++ row :: behind ↔ other = row ∨ other ∈ front ++ behind := by
    intro other
    simp only [List.mem_append, List.mem_cons]
    exact or_left_comm
  constructor
  · intro hle
    have hne : (front ++ row :: behind).map Sensor.member ≠ [] := by simp
    obtain ⟨⟨m, hm, heq⟩, -⟩ := rollup_worst hne now
    obtain ⟨other, hother, rfl⟩ := List.mem_map.mp hm
    rw [← heq] at hle
    rcases (hmem other).mp hother with rfl | hother
    · exact .inl hle
    · exact .inr (.inr ⟨other, hother, hle⟩)
  · have hcounts : ∀ other ∈ front ++ row :: behind, counts other.member now ≤
        badness (rollup ((front ++ row :: behind).map Sensor.member) now) := fun other ho =>
      counts_le_rollup (List.mem_map.mpr ⟨other, ho, rfl⟩) now
    rintro (hle | rfl | ⟨other, hother, hle⟩)
    · exact Nat.le_trans hle (hcounts row ((hmem row).mpr (.inl rfl)))
    · exact Nat.zero_le _
    · exact Nat.le_trans hle (hcounts other ((hmem other).mpr (.inr hother)))

/-- **When a worse member does not make the dashboard better.** A reading makes the raw state of one
member worse. The rollup after it is not better than the one before, at the same instant,
exactly if the member has no hold time, or did not count before, or another member counts. -/
theorem worse_reading_keeps_rollup (front behind : List Sensor) (row row' : Sensor)
    (state : CheckState) (now : Time) (hsound : row.Sound)
    (hrecord : row.record state now = some row')
    (hworse : badness (deriveRaw row.member now) < badness (deriveRaw row'.member now)) :
    badness (rollup ((front ++ row :: behind).map Sensor.member) now) ≤
        badness (rollup ((front ++ row' :: behind).map Sensor.member) now) ↔
      row.forSeconds = 0 ∨ badness (evaluateMember row.member now).effectiveState = 0 ∨
        ∃ other ∈ front ++ behind, 0 < badness (evaluateMember other.member now).effectiveState := by
  have hcounts := counts_of_worse hsound hrecord hworse
  have hbefore : counts row.member now ≤ 1 := by
    have hraw : counts row.member now ≤ badness (deriveRaw row.member now) := effective_le_raw
    have htwo := badness_le_two (deriveRaw row'.member now)
    omega
  constructor
  · intro hle
    by_cases hhold : row.forSeconds = 0
    · exact .inl hhold
    · rw [if_neg hhold] at hcounts
      rcases Nat.eq_zero_or_pos (counts row.member now) with hzero | hpos
      · exact .inr (.inl hzero)
      · -- the member counted, so something counts after the reading, and it is another member
        have hone := (rollup_split front behind row now 1).mpr (.inl hpos)
        have hafter := (rollup_split front behind row' now 1).mp (Nat.le_trans hone hle)
        rcases hafter with hself | hzero | hother
        · omega
        · cases hzero
        · exact .inr (.inr hother)
  · intro hcondition
    rw [rollup_split]
    rcases (rollup_split front behind row now _).mp (Nat.le_refl _) with hself | hzero | hother
    · rcases hcondition with hhold | hzero | ⟨other, hother, hpos⟩
      · rw [if_pos hhold] at hcounts
        exact .inl (Nat.le_trans hself hcounts)
      · refine .inr (.inl (Nat.le_zero.mp ?_))
        exact Nat.le_trans hself (Nat.le_of_eq hzero)
      · exact .inr (.inr ⟨other, hother, Nat.le_trans hself (Nat.le_trans hbefore hpos)⟩)
    · exact .inr (.inl hzero)
    · exact .inr (.inr hother)

end Reading

/-- A sensor that has been degraded from the start on, with a hold of five minutes. -/
def heldSensor : Sensor where
  name := "disk"
  settings := ⟨"host", "disk", [], []⟩
  cadence := .interval 60 (by decide) "UTC"
  severity := .critical
  id := 0
  target := none
  status := .active
  nextFireAt := some (seconds 460)
  forSeconds := 300
  retryTimes := 0
  retryBackoffSeconds := 15
  lastState := .degraded
  lastEvaluatedAt := some (seconds 340)
  stateSince := some (seconds 0)
  pendingState := none
  pendingCount := 0
  edition := 0

/-- The sensor with the reading that makes it critical. -/
def heldCritical : Sensor :=
  { heldSensor with
    lastState := .critical
    lastEvaluatedAt := some (seconds 400)
    stateSince := some (seconds 400) }

theorem heldSensor_record : heldSensor.record .critical (seconds 400) = some heldCritical := by
  unfold Sensor.record
  rw [if_neg (by decide)]
  unfold commitThroughConfirmationGate
  rw [if_neg (by decide)]
  rfl

theorem worse_reading_keeps_rollup_two :
    badness (rollup [heldSensor.member, heldSensor.member] (seconds 400)) ≤
      badness (rollup [heldCritical.member, heldSensor.member] (seconds 400)) :=
  (worse_reading_keeps_rollup [] [heldSensor] heldSensor heldCritical .critical (seconds 400)
    (fun h => by cases h) heldSensor_record (by decide)).mpr
    (.inr (.inr ⟨heldSensor, List.mem_cons_self, by decide⟩))

/-- The only member turns from degraded to critical, and the dashboard from degraded to ok. -/
theorem worse_reading_makes_green :
    heldSensor.record .critical (seconds 400) = some heldCritical ∧
      deriveRaw heldSensor.member (seconds 400) = .degraded ∧
      deriveRaw heldCritical.member (seconds 400) = .critical ∧
      rollup [heldSensor.member] (seconds 400) = .degraded ∧
      rollup [heldCritical.member] (seconds 400) = .ok := by
  refine ⟨heldSensor_record, ?_, ?_, ?_, ?_⟩ <;> decide

end Meho.Checks
