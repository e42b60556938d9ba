import Meho.Budget.Enforcement
import Meho.Lib.History

/- The kill switch of a principal: a request limit of 0.

Limits live on the bucket of one window, and the bucket of the next window begins without
limits. So a limit that was stored holds in the window in which it was stored
(`refused_iff_same_window`): after midnight a daily one is gone
(`kill_switch_off_next_day`), although the row's documentation says that limits are
carried over to the next bucket.

The steps are whole calls, each with its own time; a call that raises changes nothing. -/
namespace Meho.Budget
open Meho.Lib

inductive Call where
  | setLimits (c : LimitChange)
  | applyConsumption (run : Run)
  | evaluate (now : DateTime)

namespace Call

def now : Call → DateTime
  | .setLimits c => c.now
  | .applyConsumption run => run.now
  | .evaluate now => now

/-- The rows that the call's transaction leaves. -/
def outcome (rows : Buckets) : Call → Buckets
  | .setLimits c => (Budget.setLimits rows c).toOption.getD rows
  | .applyConsumption run => (Budget.applyConsumption rows run).toOption.getD rows
  | .evaluate _ => rows

end Call

/-- The table under calls. -/
def budget : Machine Buckets Call Unit where
  start := fun _ => none
  step rows call := (call.outcome rows, [])

/-! ## The limits of a key -/

/-- The bucket that the change goes to. -/
def LimitChange.key (c : LimitChange) : Option BucketKey :=
  (bucketKey c.tenantId c.principalSub c.windowKind c.now).toOption.map Prod.fst

theorem limits_getRemaining {rows : Buckets} {tenantId : Nat} {principalSub : String}
    {kind : WindowKind} {now : DateTime} {reading : BudgetReading}
    (h : getRemaining rows tenantId principalSub kind now = .ok reading) :
    ∃ key windowEnd, bucketKey tenantId principalSub kind now = .ok (key, windowEnd) ∧
      reading.limits = limitsOf rows key := by
  obtain ⟨⟨key, windowEnd⟩, hkey, h⟩ := except_bind_eq_ok h
  obtain rfl := Except.ok.inj h
  exact ⟨key, windowEnd, hkey, limits_getOrCreateBucket rows key windowEnd⟩

/-- A row is replaced. -/
theorem limitsOf_update (rows : Buckets) (key other : BucketKey) (bucket : Bucket) :
    limitsOf (Function.update rows key (some bucket)) other =
      if other = key then bucket.limits else limitsOf rows other := by
  unfold limitsOf
  by_cases h : other = key
  · rw [h, Function.update_self, if_pos rfl]
    rfl
  · rw [Function.update_of_ne h, if_neg h]

theorem setLimits_ok {rows rows' : Buckets} {c : LimitChange} (h : setLimits rows c = .ok rows') :
    ∃ key, c.key = some key ∧
      ∀ other, limitsOf rows' other =
        if other = key then (limitsOf rows key).change c else limitsOf rows other := by
  obtain ⟨⟨key, windowEnd⟩, hkey, h⟩ := except_bind_eq_ok h
  obtain rfl := Except.ok.inj h
  refine ⟨key, ?_, fun other => ?_⟩
  · unfold LimitChange.key
    rw [hkey]
    rfl
  · rw [limitsOf_update, limits_getOrCreateBucket]

theorem setLimits_error {rows : Buckets} {c : LimitChange} {e : WindowError}
    (h : setLimits rows c = .error e) : c.key = none := by
  unfold LimitChange.key
  cases hkey : bucketKey c.tenantId c.principalSub c.windowKind c.now with
  | error e => rfl
  | ok key =>
    unfold setLimits at h
    rw [hkey] at h
    cases h

/-- A run changes no limits. -/
theorem limitsOf_applyConsumption {rows rows' : Buckets} {run : Run}
    (h : applyConsumption rows run = .ok rows') (key : BucketKey) :
    limitsOf rows' key = limitsOf rows key := by
  unfold applyConsumption at h
  generalize allWindowKinds = kinds at h
  induction kinds generalizing rows with
  | nil => rw [Except.ok.inj h]
  | cons kind kinds ih =>
    rw [List.foldlM_cons] at h
    obtain ⟨rows₁, hone, h⟩ := except_bind_eq_ok h
    obtain ⟨⟨key₁, windowEnd⟩, -, hone⟩ := except_bind_eq_ok hone
    obtain rfl := Except.ok.inj hone
    rw [ih h, limitsOf_update, limits_getOrCreateBucket]
    split
    · rename_i heq
      rw [heq]
    · rfl

/-- The request limit that a call gives a key. -/
def givenRequestLimit (key : BucketKey) : Call → Option Int
  | .setLimits c => if c.key = some key then c.requestLimit else none
  | _ => none

theorem requestLimit_outcome (rows : Buckets) (call : Call) (key : BucketKey) :
    (limitsOf (call.outcome rows) key).requestLimit =
      (givenRequestLimit key call).or (limitsOf rows key).requestLimit := by
  cases call with
  | setLimits c =>
    cases h : Budget.setLimits rows c with
    | error e =>
      simp [Call.outcome, givenRequestLimit, h, setLimits_error h, Except.toOption]
    | ok rows' =>
      obtain ⟨key', hkey, hlimits⟩ := setLimits_ok h
      simp only [Call.outcome, givenRequestLimit, h, Except.toOption, Option.getD_some, hkey,
        hlimits, Option.some.injEq]
      by_cases heq : key = key'
      · simp [heq, Limits.change]
      · rw [if_neg heq, if_neg (Ne.symm heq), Option.none_or]
  | applyConsumption run =>
    cases h : Budget.applyConsumption rows run with
    | error e => simp [Call.outcome, givenRequestLimit, h, Except.toOption]
    | ok rows' =>
      simp [Call.outcome, givenRequestLimit, h, Except.toOption, limitsOf_applyConsumption h]
  | evaluate now => rfl

/-- After a run, the limit is the last one that a call gave. -/
theorem requestLimit_run (key : BucketKey) (c : Config Buckets Unit) (acts : List Call) :
    (limitsOf (budget.run c acts).state key).requestLimit =
      acts.foldl (fun limit call => (givenRequestLimit key call).or limit)
        (limitsOf c.state key).requestLimit := by
  induction acts generalizing c with
  | nil => rfl
  | cons call acts ih =>
    show (limitsOf (budget.run (budget.next c call) acts).state key).requestLimit = _
    rw [ih, List.foldl_cons, ← requestLimit_outcome]
    rfl

section Last
variable {α β : Type} {given : α → Option β} {xs : List α}

/-- What is left was given. -/
theorem given_of_foldl {limit : Option β}
    (h : xs.foldl (fun limit x => (given x).or limit) limit ≠ none) :
    limit ≠ none ∨ ∃ x ∈ xs, given x ≠ none := by
  induction xs generalizing limit with
  | nil => exact .inl h
  | cons x xs ih =>
    rcases ih h with hlimit | ⟨y, hy, hgiven⟩
    · by_cases hx : given x = none
      · simp only [hx, Option.none_or] at hlimit
        exact .inl hlimit
      · exact .inr ⟨x, List.mem_cons_self, hx⟩
    · exact .inr ⟨y, List.mem_cons_of_mem x hy, hgiven⟩

/-- What is given once and nothing else after is left. -/
theorem foldl_of_given {limit : Option β} {b : β} (hall : ∀ x ∈ xs, given x = none ∨ given x = some b)
    (h : limit = some b ∨ ∃ x ∈ xs, given x = some b) :
    xs.foldl (fun limit x => (given x).or limit) limit = some b := by
  induction xs generalizing limit with
  | nil =>
    rcases h with h | ⟨x, hx, -⟩
    · exact h
    · cases hx
  | cons x xs ih =>
    obtain ⟨hx, hxs⟩ := List.forall_mem_cons.mp hall
    refine ih hxs ?_
    rcases hx with hx | hx
    · simp only [hx, Option.none_or]
      rcases h with h | ⟨y, hy, hgiven⟩
      · exact .inl h
      · rcases List.mem_cons.mp hy with rfl | hy
        · rw [hx] at hgiven
          cases hgiven
        · exact .inr ⟨y, hy, hgiven⟩
    · exact .inl (by simp only [hx, Option.some_or])

end Last

/-! ## How long the switch is on -/

section Switch
variable (str : Nat → String)
  (thresholdBreachReason : List (WindowKind × BudgetReading) → Option String)

/-- Something other than the request limit of the kind stops the run. -/
def StoppedOtherwise (rows : Buckets) (clock : WindowKind → DateTime) (tenantId : Nat)
    (principalSub : String) (requestedTier : Option AgentTier) (context : EnforcementContext)
    (switched : WindowKind) : Prop :=
  (killSwitchDecision str tenantId requestedTier context).isSome ∨
    ∃ kind reading, getRemaining rows tenantId principalSub kind (clock kind) = .ok reading ∧
      (reached reading.limits.tokenLimit reading.consumed.tokens ∨
        reached reading.limits.costLimit reading.consumed.cost ∨
          kind ≠ switched ∧ reached reading.limits.requestLimit reading.consumed.requests)

theorem LimitChange.key_eq_some {c : LimitChange} {key : BucketKey} :
    c.key = some key ↔ ∃ windowEnd,
      bucketKey c.tenantId c.principalSub c.windowKind c.now = .ok (key, windowEnd) := by
  unfold LimitChange.key
  cases h : bucketKey c.tenantId c.principalSub c.windowKind c.now with
  | error e => simp [Except.toOption]
  | ok x =>
    obtain ⟨key', windowEnd⟩ := x
    simp [Except.toOption]

theorem bucketKey_of_window {tenantId : Nat} {principalSub : String} {kind : WindowKind}
    {now : DateTime} {start windowEnd : Time} (hstart : windowStartFor kind now = .ok start)
    (hend : windowEndFor kind start = .ok windowEnd) :
    bucketKey tenantId principalSub kind now = .ok (⟨tenantId, principalSub, kind, start⟩, windowEnd) := by
  simp only [bucketKey, hstart, hend, bind, Except.bind, pure, Except.pure]

theorem givenRequestLimit_ne_none {key : BucketKey} {call : Call}
    (h : givenRequestLimit key call ≠ none) :
    ∃ c, call = .setLimits c ∧ c.key = some key ∧ givenRequestLimit key call = c.requestLimit := by
  cases call with
  | setLimits c =>
    by_cases hkey : c.key = some key
    · exact ⟨c, rfl, hkey, if_pos hkey⟩
    · exact absurd (if_neg hkey) h
  | applyConsumption run | evaluate now => exact absurd rfl h

/-- The calls before, the one that stored a request limit of 0, and those after it, which gave
the principal's kind no other one; their times do not go back, and the next is the clock. -/
structure SwitchedOff (before : List Call) (c : LimitChange) (later : List Call)
    (clock : WindowKind → DateTime) : Prop where
  zero : c.requestLimit = some 0
  stored : c.key.isSome
  kept : ∀ c', .setLimits c' ∈ later → c'.tenantId = c.tenantId → c'.principalSub = c.principalSub →
    c'.windowKind = c.windowKind → c'.requestLimit = none ∨ c'.requestLimit = some 0
  times : (before ++ .setLimits c :: later).Pairwise fun a b => a.now.instant ≤ b.now.instant
  clock : ∀ call ∈ before ++ .setLimits c :: later, call.now.instant ≤ (clock c.windowKind).instant

/-- A call from `c` on gave the limit 0 in the window of the clock. -/
def OffInWindow (c : LimitChange) (later : List Call) (clock : WindowKind → DateTime) : Prop :=
  ∃ c', .setLimits c' ∈ Call.setLimits c :: later ∧ c'.tenantId = c.tenantId ∧
    c'.principalSub = c.principalSub ∧ c'.windowKind = c.windowKind ∧ c'.requestLimit = some 0 ∧
    ∃ start, windowStartFor c.windowKind c'.now = .ok start ∧
      windowStartFor c.windowKind (clock c.windowKind) = .ok start

section Window
variable {before later : List Call} {c : LimitChange} {clock : WindowKind → DateTime}
  {start windowEnd : Time}

theorem requestLimit_after (key : BucketKey) (acts : List Call) :
    (limitsOf (budget.after acts).state key).requestLimit =
      acts.foldl (fun limit call => (givenRequestLimit key call).or limit) none :=
  requestLimit_run key budget.begin_ acts

/-- What a call of `c` or later gives a bucket of the kind is the limit 0. -/
theorem SwitchedOff.given (h : SwitchedOff before c later clock) {key : BucketKey}
    (hprincipal : key.tenantId = c.tenantId ∧ key.principalSub = c.principalSub ∧
      key.windowKind = c.windowKind) {call : Call} (hcall : call ∈ Call.setLimits c :: later) :
    givenRequestLimit key call = none ∨ givenRequestLimit key call = some 0 := by
  by_cases hnone : givenRequestLimit key call = none
  · exact .inl hnone
  · obtain ⟨c', rfl, hkey, hgiven⟩ := givenRequestLimit_ne_none hnone
    obtain ⟨windowEnd, hkey⟩ := LimitChange.key_eq_some.mp hkey
    obtain ⟨ht, hp, hk, -, -⟩ := bucketKey_ok hkey
    rw [hgiven]
    rcases List.mem_cons.mp hcall with heq | hlater
    · obtain rfl := Call.setLimits.inj heq
      exact .inr h.zero
    · exact h.kept c' hlater (ht.symm.trans hprincipal.1) (hp.symm.trans hprincipal.2.1)
        (hk.symm.trans hprincipal.2.2)

section
variable (h : SwitchedOff before c later clock)
    (hstart : windowStartFor c.windowKind (clock c.windowKind) = .ok start)
    (hend : windowEndFor c.windowKind start = .ok windowEnd)
include h hstart hend

theorem SwitchedOff.requestLimit_zero (hoff : OffInWindow c later clock) :
    (limitsOf (budget.after (before ++ .setLimits c :: later)).state
      ⟨c.tenantId, c.principalSub, c.windowKind, start⟩).requestLimit = some 0 := by
  obtain ⟨c', hc', ht, hp, hk, hzero, start', hstart', hclock⟩ := hoff
  obtain rfl : start = start' := Except.ok.inj (hstart.symm.trans hclock)
  rw [requestLimit_after, List.foldl_append]
  refine foldl_of_given (fun call hcall => h.given ⟨rfl, rfl, rfl⟩ hcall) (.inr ⟨.setLimits c', hc', ?_⟩)
  have hkey : c'.key = some ⟨c.tenantId, c.principalSub, c.windowKind, start⟩ := by
    apply LimitChange.key_eq_some.mpr
    rw [ht, hp, hk]
    exact ⟨windowEnd, bucketKey_of_window hstart' hend⟩
  exact (if_pos hkey).trans hzero

/-- A limit that is there was given in the window of the clock, and then `c` or a call after it
gave it: a call before `c` has `c` between it and the clock. -/
theorem SwitchedOff.offInWindow
    (hlimit : (limitsOf (budget.after (before ++ .setLimits c :: later)).state ⟨c.tenantId, c.principalSub, c.windowKind, start⟩).requestLimit ≠ none) :
    OffInWindow c later clock := by
  rw [requestLimit_after] at hlimit
  obtain ⟨call, hcall, hgiven⟩ := (given_of_foldl hlimit).resolve_left (fun hno => hno rfl)
  obtain ⟨c₁, rfl, hkey, hlimit₁⟩ := givenRequestLimit_ne_none hgiven
  obtain ⟨windowEnd₁, hkey⟩ := LimitChange.key_eq_some.mp hkey
  obtain ⟨ht, hp, hk, hstart₁, -⟩ := bucketKey_ok hkey
  simp only at ht hp hk hstart₁
  rw [← hk] at hstart₁
  rcases List.mem_append.mp hcall with hbefore | hfrom
  · have htimes := h.times
    rw [List.pairwise_append] at htimes
    have hle := htimes.2.2 (.setLimits c₁) hbefore (.setLimits c) List.mem_cons_self
    have hclock := h.clock (.setLimits c) (List.mem_append_right before List.mem_cons_self)
    have haware : c.now.val.utcoffset.isSome := by
      obtain ⟨key, hstored⟩ := Option.isSome_iff_exists.mp h.stored
      obtain ⟨windowEnd₂, hstored⟩ := LimitChange.key_eq_some.mp hstored
      obtain ⟨-, -, -, hwindow, -⟩ := bucketKey_ok hstored
      obtain ⟨day, hday, -⟩ := except_map_eq_ok hwindow
      exact (utcDay_ok hday).1
    exact ⟨c, List.mem_cons_self, rfl, rfl, rfl, h.zero, start,
      window_between (b := c.now) hstart₁ hend hstart hle hclock haware, hstart⟩
  · have hzero : c₁.requestLimit = some 0 := by
      rw [← hlimit₁]
      exact (h.given ⟨rfl, rfl, rfl⟩ hfrom).resolve_left hgiven
    exact ⟨c₁, hfrom, ht.symm, hp.symm, hk.symm, hzero, start, hstart₁, hstart⟩

end

end Window

/-- Once a request limit of 0 is stored for a kind of window and no later call gives the
principal another one, a later run is refused exactly when one of these calls is in the window
of the run's time, or something else stops the run. -/
theorem refused_iff_same_window {before later : List Call} {c : LimitChange}
    {clock : WindowKind → DateTime} (h : SwitchedOff before c later clock)
    (requestedTier : Option AgentTier) (context : EnforcementContext) (decision : BudgetDecision) :
    let rows := (budget.after (before ++ .setLimits c :: later)).state
    evaluatePreRunBudget str thresholdBreachReason (fun kind => ⟨rows, clock kind⟩) c.tenantId
        c.principalSub requestedTier context = .ok decision →
      (decision.kind = .refuse ↔ OffInWindow c later clock ∨
        StoppedOtherwise str rows clock c.tenantId c.principalSub requestedTier context c.windowKind) := by
  intro rows heval
  rw [evaluatePreRunBudget_refuse heval]
  constructor
  · rintro (hkill | ⟨kind, reading, hread, hbreach⟩)
    · exact .inr (.inl hkill)
    · rcases (windowBreach_isSome kind reading).mp hbreach with htokens | hcost | hrequests
      · exact .inr (.inr ⟨kind, reading, hread, .inl htokens⟩)
      · exact .inr (.inr ⟨kind, reading, hread, .inr (.inl hcost)⟩)
      -- only the request limit of the switch's own window can be what the switch set
      · by_cases hkind : kind = c.windowKind
        · subst hkind
          obtain ⟨key, windowEnd, hkey, hlimits⟩ := limits_getRemaining hread
          obtain ⟨ht, hp, hk, hstart, hend⟩ := bucketKey_ok hkey
          left
          apply h.offInWindow hstart hend
          rw [show (⟨c.tenantId, c.principalSub, c.windowKind, key.windowStart⟩ : BucketKey) = key by
            rw [← ht, ← hp, ← hk], ← hlimits]
          intro hnone
          simp [hnone, reached] at hrequests
        · exact .inr (.inr ⟨kind, reading, hread, .inr (.inr ⟨hkind, hrequests⟩)⟩)
  · rintro (hoff | hkill | ⟨kind, reading, hread, hother⟩)
    · cases hkill : killSwitchDecision str c.tenantId requestedTier context with
      | some kill => exact .inl rfl
      | none =>
        right
        -- no kill switch stopped the run, so the windows were read, the switch's among them
        have hread : ∃ reading, getRemaining rows c.tenantId c.principalSub c.windowKind
            (clock c.windowKind) = .ok reading := by
          unfold evaluatePreRunBudget at heval
          rw [hkill] at heval
          obtain ⟨readings, hreadings, -⟩ := except_bind_eq_ok heval
          exact exists_reading hreadings c.windowKind
        obtain ⟨reading, hread⟩ := hread
        obtain ⟨key, windowEnd, hkey, hlimits⟩ := limits_getRemaining hread
        obtain ⟨ht, hp, hk, hstart, hend⟩ := bucketKey_ok hkey
        have hzero := h.requestLimit_zero hstart hend hoff
        rw [show (⟨c.tenantId, c.principalSub, c.windowKind, key.windowStart⟩ : BucketKey) = key by
          rw [← ht, ← hp, ← hk], ← hlimits] at hzero
        refine ⟨c.windowKind, reading, hread, (windowBreach_isSome _ _).mpr (.inr (.inr ?_))⟩
        simp [reached, hzero]
    · exact .inl hkill
    · refine .inr ⟨kind, reading, hread, (windowBreach_isSome kind reading).mpr ?_⟩
      rcases hother with htokens | hcost | ⟨-, hrequests⟩
      · exact .inl htokens
      · exact .inr (.inl hcost)
      · exact .inr (.inr hrequests)

/-- An hour after the switch. -/
theorem refused_iff_same_window_hour_later :
    let off : LimitChange :=
      ⟨7, "agent", .daily, none, none, some 0, ⟨⟨2026, 3, 1, 10, 0, 0, 0, some 0⟩, by decide⟩⟩
    let now : DateTime := ⟨⟨2026, 3, 1, 11, 0, 0, 0, some 0⟩, by decide⟩
    (∃ decision, evaluatePreRunBudget Nat.repr (fun _ => none)
        (fun _ => ⟨(budget.after [.setLimits off]).state, now⟩) 7 "agent" none ⟨false, []⟩ =
          .ok decision ∧ decision.kind = .refuse) := by
  intro off now
  have hoff : SwitchedOff [] off [] (fun _ => now) := by
    refine ⟨rfl, by decide +kernel, ?_, List.pairwise_singleton _ _, ?_⟩
    · intro c' hc'
      cases hc'
    · intro call hcall
      obtain rfl := List.mem_singleton.mp hcall
      show off.now.instant ≤ now.instant
      decide +kernel
  have hrefused : evaluatePreRunBudget Nat.repr (fun _ => none)
      (fun _ => ⟨(budget.after [.setLimits off]).state, now⟩) 7 "agent" none ⟨false, []⟩ =
        .ok ⟨.refuse, none, "daily request_limit is 0 (per-identity kill switch)", false⟩ := by
    decide +kernel
  refine ⟨_, hrefused, ?_⟩
  apply (refused_iff_same_window Nat.repr (fun _ => none) hoff none ⟨false, []⟩ _ hrefused).mpr
  exact .inl ⟨off, List.mem_cons_self, rfl, rfl, rfl, rfl, 63908006400000000, by decide +kernel,
    by decide +kernel⟩

/-- The next midnight: the day's bucket has no limits yet. -/
theorem kill_switch_off_next_day :
    let off : LimitChange :=
      ⟨7, "agent", .daily, none, none, some 0, ⟨⟨2026, 3, 1, 10, 0, 0, 0, some 0⟩, by decide⟩⟩
    let now : DateTime := ⟨⟨2026, 3, 2, 0, 0, 0, 0, some 0⟩, by decide⟩
    off.key.isSome ∧ off.now.instant ≤ now.instant ∧
      (evaluatePreRunBudget Nat.repr (fun _ => none)
        (fun _ => ⟨(budget.after [.setLimits off]).state, now⟩) 7 "agent" none ⟨false, []⟩).toOption =
          some ⟨.allow, none, "within budget", false⟩ := by
  decide +kernel

end Switch
end Meho.Budget
