import Mathlib.Logic.Function.Basic
import Meho.Budget.Windows

/- The budget buckets of principals (operations/identity_budget.py).

A bucket has a row for a principal, a kind of window and a start. Rows come with the first
run or the first limit of their window, with nothing consumed and no limits. A run is added
to the three buckets of its time, and an operator's limits go to the bucket of the kind
that is active then.

Correspondence: db/models.py `IdentityBudget` ↔ `BucketKey`, `Bucket`;
`apply_consumption` ↔ `charged`, `applyConsumption`; `set_limits` ↔
`Limits.change`, `setLimits`; what is not listed keeps its name.
`uq_identity_budget_window` makes the table a map. Money is in the millionths
that the column `Numeric(14, 6)` holds, rounded half away from zero when it is
stored. The columns' upper bounds, `id`, `created_at` and `updated_at` are
left out. -/
namespace Meho.Budget
open Meho.Lib

/-! ## Rows -/

/-- The unique key of a bucket. -/
structure BucketKey where
  tenantId : Nat
  principalSub : String
  windowKind : WindowKind
  windowStart : Time
  deriving DecidableEq

/-- No limit where it is `none`. -/
structure Limits where
  tokenLimit : Option Int
  costLimit : Option Int
  requestLimit : Option Int
  deriving DecidableEq, Repr

structure Consumed where
  tokens : Nat
  cost : Int
  requests : Nat
  deriving DecidableEq, Repr

structure Bucket where
  windowEnd : Time
  limits : Limits
  consumed : Consumed
  deriving DecidableEq

/-- The table. -/
abbrev Buckets := BucketKey → Option Bucket

def nothingConsumed : Consumed := ⟨0, 0, 0⟩

def noLimits : Limits := ⟨none, none, none⟩

/-- A bucket as `_get_or_create_bucket` inserts it. -/
def newBucket (windowEnd : Time) : Bucket := ⟨windowEnd, noLimits, nothingConsumed⟩

/-- A decimal number: the coefficient, and how many of its digits are after the point. -/
structure Decimal where
  coefficient : Int
  places : Nat
  deriving DecidableEq, Repr

def Decimal.add (a b : Decimal) : Decimal :=
  ⟨a.coefficient * 10 ^ b.places + b.coefficient * 10 ^ a.places, a.places + b.places⟩

/-- It is what a column of millionths has. -/
def Decimal.equals (x : Decimal) (millionths : Option Int) : Bool :=
  millionths.any fun m => x.coefficient * 10 ^ 6 = m * 10 ^ x.places

/-- `n / d` rounded, half away from zero. -/
def roundedDiv (n d : Int) : Int :=
  if 0 ≤ n then (2 * n + d) / (2 * d) else -((-2 * n + d) / (2 * d))

/-- What a `Numeric(14, 6)` column keeps of a number, in millionths. -/
def storedMillionths (x : Decimal) : Int := roundedDiv (x.coefficient * 10 ^ 6) (10 ^ x.places)

/-- The bucket of a principal at a time, and where its window ends. -/
def bucketKey (tenantId : Nat) (principalSub : String) (kind : WindowKind) (now : DateTime) :
    Except WindowError (BucketKey × Time) := do
  let windowStart ← windowStartFor kind now
  let windowEnd ← windowEndFor kind windowStart
  return (⟨tenantId, principalSub, kind, windowStart⟩, windowEnd)

def getOrCreateBucket (rows : Buckets) (key : BucketKey) (windowEnd : Time) : Bucket :=
  (rows key).getD (newBucket windowEnd)

/-! ## Runs -/

/-- One call of `apply_consumption`: what a run used, and when. -/
structure Run where
  tenantId : Nat
  principalSub : String
  tokens : Nat
  cost : Decimal
  requests : Nat
  now : DateTime
  cost_nonneg : 0 ≤ cost.coefficient

/-- The consumption with the run's, as it is stored. -/
def charged (run : Run) (consumed : Consumed) : Consumed where
  tokens := consumed.tokens + run.tokens
  cost := storedMillionths (Decimal.add ⟨consumed.cost, 6⟩ run.cost)
  requests := consumed.requests + run.requests

def applyConsumption (rows : Buckets) (run : Run) : Except WindowError Buckets :=
  allWindowKinds.foldlM (fun rows kind => do
    let (key, windowEnd) ← bucketKey run.tenantId run.principalSub kind run.now
    let bucket := getOrCreateBucket rows key windowEnd
    return Function.update rows key (some { bucket with consumed := charged run bucket.consumed })) rows

/-! ## Limits -/

/-- One call of `set_limits`; a limit that is not given stays. -/
structure LimitChange where
  tenantId : Nat
  principalSub : String
  windowKind : WindowKind
  tokenLimit : Option Int
  costLimit : Option Decimal
  requestLimit : Option Int
  now : DateTime

def Limits.change (limits : Limits) (c : LimitChange) : Limits where
  tokenLimit := c.tokenLimit.or limits.tokenLimit
  costLimit := (c.costLimit.map storedMillionths).or limits.costLimit
  requestLimit := c.requestLimit.or limits.requestLimit

def setLimits (rows : Buckets) (c : LimitChange) : Except WindowError Buckets := do
  let (key, windowEnd) ← bucketKey c.tenantId c.principalSub c.windowKind c.now
  let bucket := getOrCreateBucket rows key windowEnd
  return Function.update rows key (some { bucket with limits := bucket.limits.change c })

/-- A bucket as the gate reads it. -/
structure BudgetReading where
  tenantId : Nat
  principalSub : String
  windowKind : WindowKind
  windowStart : Time
  windowEnd : Time
  limits : Limits
  consumed : Consumed
  tokensRemaining : Option Int
  costRemaining : Option Int
  requestsRemaining : Option Int
  deriving DecidableEq

/-- The active bucket, or one without limits and consumption. -/
def getRemaining (rows : Buckets) (tenantId : Nat) (principalSub : String) (kind : WindowKind)
    (now : DateTime) : Except WindowError BudgetReading := do
  let (key, windowEnd) ← bucketKey tenantId principalSub kind now
  let row := getOrCreateBucket rows key windowEnd
  return {
    tenantId := tenantId
    principalSub := principalSub
    windowKind := kind
    windowStart := key.windowStart
    windowEnd := row.windowEnd
    limits := row.limits
    consumed := row.consumed
    tokensRemaining := row.limits.tokenLimit.map (· - row.consumed.tokens)
    costRemaining := row.limits.costLimit.map (· - row.consumed.cost)
    requestsRemaining := row.limits.requestLimit.map (· - row.consumed.requests) }

/-! ## What a key has -/

def limitsOf (rows : Buckets) (key : BucketKey) : Limits := ((rows key).map Bucket.limits).getD noLimits

def consumedOf (rows : Buckets) (key : BucketKey) : Consumed :=
  ((rows key).map Bucket.consumed).getD nothingConsumed

theorem limits_getOrCreateBucket (rows : Buckets) (key : BucketKey) (windowEnd : Time) :
    (getOrCreateBucket rows key windowEnd).limits = limitsOf rows key := by
  unfold getOrCreateBucket limitsOf
  cases rows key <;> rfl

section Row
variable {rows : Buckets} {key : BucketKey}

theorem consumedOf_of_some {bucket : Bucket} (h : rows key = some bucket) :
    consumedOf rows key = bucket.consumed := by
  unfold consumedOf
  rw [h]
  rfl

theorem limitsOf_of_some {bucket : Bucket} (h : rows key = some bucket) :
    limitsOf rows key = bucket.limits := by
  unfold limitsOf
  rw [h]
  rfl

theorem consumedOf_of_none (h : rows key = none) :
    consumedOf rows key = nothingConsumed := by
  unfold consumedOf
  rw [h]
  rfl

theorem limitsOf_of_none (h : rows key = none) : limitsOf rows key = noLimits := by
  unfold limitsOf
  rw [h]
  rfl

end Row

/-! ## Rounding -/

theorem roundedDiv_scale {n d k : Int} (hn : 0 ≤ n) (hk : 0 < k) :
    roundedDiv (n * k) (d * k) = roundedDiv n d := by
  unfold roundedDiv
  rw [if_pos (Int.mul_nonneg hn (Int.le_of_lt hk)), if_pos hn]
  rw [show 2 * (n * k) + d * k = (2 * n + d) * k by ring, show 2 * (d * k) = 2 * d * k by ring]
  exact Int.mul_ediv_mul_of_pos_left _ _ hk

theorem roundedDiv_add {m n d : Int} (hm : 0 ≤ m) (hn : 0 ≤ n) (hd : 0 < d) :
    roundedDiv (m * d + n) d = m + roundedDiv n d := by
  have hmd : 0 ≤ m * d := Int.mul_nonneg hm (Int.le_of_lt hd)
  unfold roundedDiv
  rw [if_pos (by omega), if_pos hn, show 2 * (m * d + n) + d = 2 * n + d + m * (2 * d) by ring,
    Int.add_mul_ediv_right _ _ (by omega)]
  omega

theorem roundedDiv_nonneg {n d : Int} (hn : 0 ≤ n) (hd : 0 < d) : 0 ≤ roundedDiv n d := by
  unfold roundedDiv
  rw [if_pos hn]
  exact Int.ediv_nonneg (by omega) (by omega)

/-- What a column has is not rounded again. -/
theorem storedMillionths_add {m : Int} (hm : 0 ≤ m) {x : Decimal} (hx : 0 ≤ x.coefficient) :
    storedMillionths (Decimal.add ⟨m, 6⟩ x) = m + storedMillionths x := by
  have hpow : (0 : Int) < 10 ^ x.places := Int.pow_pos (by decide)
  have hx' : 0 ≤ x.coefficient * 10 ^ 6 := Int.mul_nonneg hx (by decide)
  calc storedMillionths (Decimal.add ⟨m, 6⟩ x)
      = roundedDiv ((m * 10 ^ x.places + x.coefficient * 10 ^ 6) * 10 ^ 6) (10 ^ x.places * 10 ^ 6) := by
        unfold storedMillionths Decimal.add
        rw [Nat.add_comm, Int.pow_add]
    _ = roundedDiv (m * 10 ^ x.places + x.coefficient * 10 ^ 6) (10 ^ x.places) :=
        roundedDiv_scale (Int.add_nonneg (Int.mul_nonneg hm (Int.le_of_lt hpow)) hx') (by decide)
    _ = m + storedMillionths x := roundedDiv_add hm hx' hpow

theorem storedMillionths_nonneg {x : Decimal} (hx : 0 ≤ x.coefficient) : 0 ≤ storedMillionths x :=
  roundedDiv_nonneg (Int.mul_nonneg hx (by decide)) (Int.pow_pos (by decide))

section Keys
variable {tenantId : Nat} {principalSub : String} {kind : WindowKind} {now : DateTime}

theorem bucketKey_ok {key : BucketKey} {windowEnd : Time}
    (h : bucketKey tenantId principalSub kind now = .ok (key, windowEnd)) :
    key.tenantId = tenantId ∧ key.principalSub = principalSub ∧ key.windowKind = kind ∧
      windowStartFor kind now = .ok key.windowStart ∧
      windowEndFor kind key.windowStart = .ok windowEnd := by
  obtain ⟨start, hstart, h⟩ := except_bind_eq_ok h
  obtain ⟨last, hlast, h⟩ := except_bind_eq_ok h
  obtain ⟨rfl, rfl⟩ := Prod.mk.inj (Except.ok.inj h)
  exact ⟨rfl, rfl, rfl, hstart, hlast⟩

end Keys
end Meho.Budget
