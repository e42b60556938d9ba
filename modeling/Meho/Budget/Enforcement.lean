import Meho.Budget.Buckets

/- Whether a run may start (operations/budget_enforcement.py).

The kill switches of the deployment and of the tenant are asked first, then the three
active buckets: a limit that is reached refuses the run, and near a limit the run gets the
next cheaper tier.

Correspondence: each function keeps its name. `_threshold_breach_reason`
divides floating-point numbers and is a parameter: it picks the tier of a run
that is allowed. `str` prints a tenant's id. The snapshots of a decision
(ratios for the log) are left out. Each bucket is read at its own moment, so
the clock and the rows are given for each kind. -/
namespace Meho.Budget
open Meho.Lib

inductive AgentTier where
  | triage
  | investigate
  | summarize
  deriving DecidableEq, Repr

/-- `TIER_DOWNGRADE_LADDER.get`. -/
def tierDowngradeLadder : AgentTier → Option AgentTier
  | .investigate => some .summarize
  | .summarize => some .triage
  | .triage => none

inductive BudgetDecisionKind where
  | allow
  | refuse
  deriving DecidableEq, Repr

structure BudgetDecision where
  kind : BudgetDecisionKind
  tier : Option AgentTier
  reason : String
  downgraded : Bool
  deriving DecidableEq, Repr

/-- The switches the gate reads beside the buckets. -/
structure EnforcementContext where
  globalKillSwitch : Bool
  disabledTenants : List Nat

/-! ## The gates -/

section Gates
variable (str : Nat → String) (tenantId : Nat) (principalSub : String)

def killSwitchDecision (requestedTier : Option AgentTier) (context : EnforcementContext) :
    Option BudgetDecision :=
  if context.globalKillSwitch then
    some ⟨.refuse, requestedTier, "global kill switch enabled (AGENT_RUNS_DISABLED_GLOBAL)", false⟩
  else if tenantId ∈ context.disabledTenants then
    some ⟨.refuse, requestedTier, "tenant " ++ str tenantId ++ " is in AGENT_RUNS_DISABLED_TENANTS; " ++
      "agent runs are kill-switched for this tenant", false⟩
  else none

/-- The rows and the clock as the reads of the three windows find them. -/
structure Moment where
  rows : Buckets
  now : DateTime

def readAllWindows (at_ : WindowKind → Moment) :
    Except WindowError (List (WindowKind × BudgetReading)) :=
  allWindowKinds.mapM fun kind => do
    let reading ← getRemaining (at_ kind).rows tenantId principalSub kind (at_ kind).now
    return (kind, reading)

end Gates

/-- `str` of a whole number. -/
def wholeText (n : Int) : String := toString n

/-- `str` of a `Decimal` with six places. -/
def moneyText (millionths : Int) : String :=
  (if millionths < 0 then "-" else "") ++ wholeText (millionths.natAbs / 1000000 : Nat) ++ "." ++
    String.ofList (decimal 6 (millionths.natAbs % 1000000))

/-- `limit is not None and consumed >= limit`. -/
def reached (limit : Option Int) (consumed : Int) : Bool := limit.any (· ≤ consumed)

/-- The first limit of one reading that is reached: tokens, cost, requests. -/
def windowBreach (kind : WindowKind) (reading : BudgetReading) : Option String :=
  let limits := reading.limits
  let consumed := reading.consumed
  if reached limits.tokenLimit consumed.tokens then
    some (kind.value ++ " tokens_consumed (" ++ wholeText consumed.tokens ++ ") >= token_limit (" ++
      wholeText (limits.tokenLimit.getD 0) ++ ")")
  else if reached limits.costLimit consumed.cost then
    some (kind.value ++ " cost_consumed (" ++ moneyText consumed.cost ++ ") >= cost_limit (" ++
      moneyText (limits.costLimit.getD 0) ++ ")")
  else if reached limits.requestLimit consumed.requests then
    if limits.requestLimit = some 0 then
      some (kind.value ++ " request_limit is 0 (per-identity kill switch)")
    else
      some (kind.value ++ " requests_consumed (" ++ wholeText consumed.requests ++
        ") >= request_limit (" ++ wholeText (limits.requestLimit.getD 0) ++ ")")
  else none

def capBreachReason (readings : List (WindowKind × BudgetReading)) : Option String :=
  readings.findSome? fun r => windowBreach r.1 r.2

def maybeDowngrade (requestedTier : AgentTier) (thresholdReason : String) : Option BudgetDecision :=
  (tierDowngradeLadder requestedTier).map fun cheaper =>
    ⟨.allow, some cheaper, "tier downgraded: " ++ thresholdReason, true⟩

section Evaluate
variable (str : Nat → String)
  (thresholdBreachReason : List (WindowKind × BudgetReading) → Option String)

def evaluatePreRunBudget (at_ : WindowKind → Moment) (tenantId : Nat) (principalSub : String)
    (requestedTier : Option AgentTier) (context : EnforcementContext) :
    Except WindowError BudgetDecision :=
  match killSwitchDecision str tenantId requestedTier context with
  | some kill => .ok kill
  | none => do
    let readings ← readAllWindows tenantId principalSub at_
    match capBreachReason readings with
    | some reason => return ⟨.refuse, requestedTier, reason, false⟩
    | none =>
      let downgraded : Option BudgetDecision := do
        maybeDowngrade (← requestedTier) (← thresholdBreachReason readings)
      return downgraded.getD ⟨.allow, requestedTier, "within budget", false⟩

/-! ## When a run is refused -/

variable {str thresholdBreachReason}

theorem killSwitchDecision_refuse {tenantId : Nat} {requestedTier : Option AgentTier}
    {context : EnforcementContext} {kill : BudgetDecision}
    (h : killSwitchDecision str tenantId requestedTier context = some kill) : kill.kind = .refuse := by
  unfold killSwitchDecision at h
  split at h
  · rw [← Option.some.inj h]
  · split at h
    · rw [← Option.some.inj h]
    · cases h

/-- A window stops runs when one of its limits is reached. -/
theorem windowBreach_isSome (kind : WindowKind) (reading : BudgetReading) :
    (windowBreach kind reading).isSome ↔
      reached reading.limits.tokenLimit reading.consumed.tokens ∨
        reached reading.limits.costLimit reading.consumed.cost ∨
          reached reading.limits.requestLimit reading.consumed.requests := by
  unfold windowBreach
  simp only
  split
  · simp [*]
  · split
    · simp [*]
    · split
      · rename_i hreached
        split <;> exact ⟨fun _ => .inr (.inr hreached), fun _ => rfl⟩
      · simp [*]

theorem capBreachReason_isSome (readings : List (WindowKind × BudgetReading)) :
    (capBreachReason readings).isSome ↔ ∃ r ∈ readings, (windowBreach r.1 r.2).isSome := by
  unfold capBreachReason
  rw [List.isSome_findSome?, List.any_eq_true]

variable {at_ : WindowKind → Moment}

section
variable {tenantId : Nat} {principalSub : String} {readings : List (WindowKind × BudgetReading)}
    (h : readAllWindows tenantId principalSub at_ = .ok readings)
include h

theorem mem_readAllWindows {kind : WindowKind} {reading : BudgetReading} :
    (kind, reading) ∈ readings ↔
      getRemaining (at_ kind).rows tenantId principalSub kind (at_ kind).now = .ok reading := by
  rw [mem_of_except_mapM h]
  constructor
  · rintro ⟨kind', -, hread⟩
    obtain ⟨reading', hread', heq⟩ := except_bind_eq_ok hread
    obtain ⟨rfl, rfl⟩ := Prod.mk.inj (Except.ok.inj heq)
    exact hread'
  · intro hread
    refine ⟨kind, mem_allWindowKinds kind, ?_⟩
    rw [hread]
    rfl

theorem exists_reading (kind : WindowKind) :
    ∃ reading, getRemaining (at_ kind).rows tenantId principalSub kind (at_ kind).now =
      .ok reading := by
  obtain ⟨_, hone⟩ := exists_of_except_mapM h (mem_allWindowKinds kind)
  obtain ⟨reading, hread, -⟩ := except_bind_eq_ok hone
  exact ⟨reading, hread⟩

end

/-- A run is refused by a kill switch or because a window's limit is reached. -/
theorem evaluatePreRunBudget_refuse {tenantId : Nat} {principalSub : String}
    {requestedTier : Option AgentTier} {context : EnforcementContext} {decision : BudgetDecision}
    (h : evaluatePreRunBudget str thresholdBreachReason at_ tenantId principalSub requestedTier context = .ok decision) :
    decision.kind = .refuse ↔
      (killSwitchDecision str tenantId requestedTier context).isSome ∨
        ∃ kind reading, getRemaining (at_ kind).rows tenantId principalSub kind (at_ kind).now =
          .ok reading ∧ (windowBreach kind reading).isSome := by
  unfold evaluatePreRunBudget at h
  cases hkill : killSwitchDecision str tenantId requestedTier context with
  | some kill =>
    rw [hkill] at h
    obtain rfl := Except.ok.inj h
    exact ⟨fun _ => .inl rfl, fun _ => killSwitchDecision_refuse hkill⟩
  | none =>
    rw [hkill] at h
    obtain ⟨readings, hread, h⟩ := except_bind_eq_ok h
    have hbreach : (capBreachReason readings).isSome ↔
        ∃ kind reading, getRemaining (at_ kind).rows tenantId principalSub kind (at_ kind).now =
          .ok reading ∧ (windowBreach kind reading).isSome := by
      rw [capBreachReason_isSome]
      constructor
      · rintro ⟨⟨kind, reading⟩, hmem, hr⟩
        exact ⟨kind, reading, (mem_readAllWindows hread).mp hmem, hr⟩
      · rintro ⟨kind, reading, hmem, hr⟩
        exact ⟨(kind, reading), (mem_readAllWindows hread).mpr hmem, hr⟩
    -- past the caps a run is allowed, on a lower tier if one is asked for
    rw [Option.isSome_none, Bool.false_eq_true, false_or, ← hbreach]
    cases hcap : capBreachReason readings with
    | some reason =>
      rw [hcap] at h
      obtain rfl := Except.ok.inj h
      simp
    | none =>
      rw [hcap] at h
      obtain rfl := Except.ok.inj h
      simp only [Option.isSome_none, Bool.false_eq_true, iff_false]
      cases requestedTier with
      | none => simp
      | some tier =>
        cases thresholdBreachReason readings with
        | none => simp
        | some reason =>
          simp only [maybeDowngrade, Option.bind_eq_bind, Option.bind_some]
          cases tierDowngradeLadder tier <;> simp

end Evaluate
end Meho.Budget
