import Meho.Checks.Evaluate
import Mathlib.Data.List.MinMax

/- When the evaluation of an assertion gives strict JSON (checks/evaluate.py).

Strict JSON has no NaN and no infinity, and an integer of more than 4300 digits has no text at
all. Nothing but a timestamp whose integer is too long to print makes the evaluator raise. What it
gives holds a number without a text only from four places: the comparator's own values, a
number that the path selects as it is, the number that selected rows come to (`ComesTo`), and
the rows sampled when that number is not ok. `evaluation_strict_iff` puts them together. A
threshold's state gets no better when the value goes on in the operator's direction. -/
namespace Meho.Checks.Evaluate

/-- Every value the evidence carries is strict JSON. -/
structure Evidence.Strict (e : Evidence) : Prop where
  expected : strictFields e.expected = true
  observed : ∀ value, e.observed = some value → value.isStrict = true
  age : ∀ seconds, e.ageSeconds = some seconds → seconds.isFinite = true
  sample : ∀ rows, e.sample = some rows → strictItems rows = true

/-- Every number in the value and in the evidence has a text in strict JSON. -/
structure AssertionOutcome.Strict (o : AssertionOutcome) : Prop where
  value : o.value.isStrict = true
  evidence : o.evidence.Strict

theorem strictItems_iff {items : List Payload} :
    strictItems items = true ↔ ∀ item ∈ items, item.isStrict = true := by
  induction items with
  | nil => simp [strictItems]
  | cons item items ih => simp [strictItems, ih]

/-! ## The comparator's own values -/

def Compare.isStrict : Compare → Bool
  | .threshold _ => true
  | .equals value => value.isStrict
  | .isIn values _ => values.all (·.isStrict)
  | .bool _ => true
  | .freshness f => f.maxAgeSeconds.isFinite

theorem floatOrNull_strict {bound : Option PyFloat} :
    (floatOrNull bound).isStrict = bound.all (·.isFinite) := by
  cases bound with
  | none => rfl
  | some f => simp [floatOrNull, Payload.isStrict, Scalar.isStrict, PyNumber.isStrict]

theorem threshold_finite (t : ThresholdCompare) :
    t.degraded.all (·.isFinite) = true ∧ t.critical.all (·.isFinite) = true := by
  have hbounds := t.bounds
  unfold checkBounds at hbounds
  simp only [Bool.and_eq_true] at hbounds
  exact hbounds.1.1

/-- An age below another one is finite. -/
theorem degradedAge_finite (f : FreshnessCompare) :
    f.degradedAgeSeconds.all (·.isFinite) = true := by
  have hages := f.ages
  unfold checkAges at hages
  rw [Bool.and_eq_true] at hages
  obtain ⟨hmax, hdegraded⟩ := hages
  cases hage : f.degradedAgeSeconds with
  | none => rfl
  | some degraded =>
    rw [hage, Option.all_some, Bool.and_eq_true, Bool.not_eq_true'] at hdegraded
    obtain ⟨hpos, hless⟩ := hdegraded
    cases degraded with
    | finite q => rfl
    | nan => cases hpos
    | inf negative =>
      cases negative with
      | true => simp [PyNumber.lt, PyNumber.place, PyFloat.place] at hpos
      | false =>
        -- nothing is beyond an infinite age
        cases hm : f.maxAgeSeconds with
        | nan =>
          rw [hm] at hmax
          cases hmax
        | finite q => simp [hm, PyNumber.le, PyNumber.place, PyFloat.place] at hless
        | inf negative =>
          cases negative <;> simp [hm, PyNumber.le, PyNumber.place, PyFloat.place] at hless

theorem expectedEvidence_strict (c : Compare) :
    strictFields (expectedEvidence c) = c.isStrict := by
  cases c with
  | threshold t =>
    obtain ⟨hdegraded, hcritical⟩ := threshold_finite t
    simp [expectedEvidence, strictFields, floatOrNull_strict, hdegraded, hcritical,
      Payload.isStrict, Scalar.isStrict, Compare.isStrict]
  | equals value => simp [expectedEvidence, strictFields, Payload.isStrict, Compare.isStrict]
  | isIn values hsome =>
    have hitems : strictItems (values.map .scalar) = values.all (·.isStrict) := by
      induction values with
      | nil => exact absurd rfl hsome
      | cons value values ih =>
        cases values with
        | nil => simp [strictItems, Payload.isStrict]
        | cons next values =>
          simp only [List.map_cons, strictItems, Payload.isStrict, List.all_cons] at ih ⊢
          rw [ih (by simp)]
    simp [expectedEvidence, strictFields, Payload.isStrict, Compare.isStrict, hitems]
  | bool expect => rfl
  | freshness f =>
    have hdegraded := degradedAge_finite f
    simp [expectedEvidence, strictFields, floatOrNull_strict, hdegraded, Compare.isStrict]

/-! ## The judged value -/

section Evaluator
variable {py : Python}

variable {kind : Aggregate} {n : PyNumber}

/-- A selected number. -/
def row (n : PyNumber) : Payload := .scalar (.num n)

theorem requireNumber_iff {item : Payload} :
    requireNumber py kind item = .ok n ↔ item = row n ∧ n.isFinite = true := by
  constructor
  · intro h
    unfold requireNumber at h
    split at h
    · split at h
      · cases h
        exact ⟨rfl, rfl⟩
      · split at h
        · rename_i hfinite
          cases h
          exact ⟨rfl, hfinite⟩
        · cases h
    · cases h
  · rintro ⟨rfl, hfinite⟩
    cases n with
    | int i => rfl
    | float f => exact if_pos hfinite

theorem requireBool_ok {item : Payload} {b : Bool} (h : requireBool kind item = .ok b) :
    item = .scalar (.bool b) := by
  unfold requireBool at h
  split at h
  · cases h
    rfl
  · cases h

theorem mapM_cons_ok {α β : Type} {f : α → Except String β} {x : α} {xs : List α} {ys : List β} :
    (x :: xs).mapM f = .ok ys ↔ ∃ y rest, f x = .ok y ∧ xs.mapM f = .ok rest ∧ ys = y :: rest := by
  rw [List.mapM_cons]
  cases hx : f x with
  | error e => simp [bind, Except.bind]
  | ok y =>
    cases hxs : xs.mapM f with
    | error e => simp [bind, Except.bind]
    | ok rest => simp [bind, Except.bind, pure, Except.pure, eq_comm]

variable {values : List Payload} {numbers : List PyNumber}

/-- An aggregate of numbers takes rows that are all numbers, finite floats among them. -/
theorem requireNumbers_iff :
    values.mapM (requireNumber py kind) = .ok numbers ↔
      values = numbers.map row ∧ ∀ n ∈ numbers, n.isFinite = true := by
  induction values generalizing numbers with
  | nil =>
    rw [List.mapM_nil]
    constructor
    · intro h
      cases h
      exact ⟨rfl, nofun⟩
    · rintro ⟨hrows, -⟩
      rw [List.map_eq_nil_iff.mp hrows.symm]
      rfl
  | cons item values ih =>
    rw [mapM_cons_ok]
    constructor
    · rintro ⟨n, rest, hitem, hvalues, rfl⟩
      obtain ⟨rfl, hn⟩ := requireNumber_iff.mp hitem
      obtain ⟨rfl, hrest⟩ := ih.mp hvalues
      exact ⟨rfl, List.forall_mem_cons.mpr ⟨hn, hrest⟩⟩
    · rintro ⟨hrows, hfinite⟩
      cases numbers with
      | nil => cases hrows
      | cons n rest =>
        obtain ⟨rfl, rfl⟩ := List.cons.inj hrows
        obtain ⟨hn, hrest⟩ := List.forall_mem_cons.mp hfinite
        exact ⟨n, rest, requireNumber_iff.mpr ⟨rfl, hn⟩, ih.mpr ⟨rfl, hrest⟩, rfl⟩

theorem bools_strict {bools : List Bool} (h : values.mapM (requireBool kind) = .ok bools) :
    strictItems values = true := by
  induction values generalizing bools with
  | nil => rfl
  | cons item values ih =>
    obtain ⟨b, rest, hitem, hvalues, -⟩ := mapM_cons_ok.mp h
    rw [strictItems, requireBool_ok hitem, ih hvalues]
    rfl

/-- What a finite number stands for. -/
def PyNumber.amount : PyNumber → ℚ
  | .int i => i
  | .float (.finite q) => q
  | .float _ => 0

theorem lt_eq_amount {a b : PyNumber} (ha : a.isFinite = true) (hb : b.isFinite = true) :
    a.lt b = decide (a.amount < b.amount) := by
  have hplace : ∀ {n : PyNumber}, n.isFinite = true →
      n.place = some ((n.amount : WithTop ℚ) : WithBot (WithTop ℚ)) := by
    intro n hn
    cases n with
    | int i => rfl
    | float f =>
      cases f with
      | finite q => rfl
      | nan => cases hn
      | inf negative => cases hn
  simp only [PyNumber.lt, hplace ha, hplace hb, WithBot.coe_lt_coe, WithTop.coe_lt_coe]

/-- **The number that the selected rows come to**: how many they are, or their sum, or the first of
the largest or the smallest of them. -/
def ComesTo (py : Python) (kind : Aggregate) (rows : List Payload) (n : PyNumber) : Prop :=
  match kind with
  | .count => n = .int rows.length
  | .any | .all => False
  | _ => ∃ numbers : List PyNumber, rows = numbers.map row ∧ (∀ m ∈ numbers, m.isFinite = true) ∧
      match kind with
      | .max => numbers.argmax PyNumber.amount = some n
      | .min => numbers.argmin PyNumber.amount = some n
      | _ => py.sum numbers = some n ∧ n.isFinite = true

/-- The number that beats the others is the first of the largest, or of the smallest. -/
theorem extremum_iff {beats : PyNumber → PyNumber → Bool}
    (better : PyNumber → PyNumber → Prop) [DecidableRel better]
    (hbeats : ∀ a b : PyNumber, a.isFinite = true → b.isFinite = true →
      beats a b = decide (better a b))
    (hfinite : ∀ m ∈ numbers, m.isFinite = true) {v : Scalar} :
    extremum kind beats numbers = .ok v ↔
      ∃ n, v = .num n ∧ numbers.foldl (List.argAux better) none = some n := by
  cases numbers with
  | nil => simp [extremum]
  | cons first others =>
    obtain ⟨hfirst, hothers⟩ := List.forall_mem_cons.mp hfinite
    have hfold : ∀ (l : List PyNumber) (best : PyNumber), best.isFinite = true →
        (∀ m ∈ l, m.isFinite = true) →
        l.foldl (List.argAux better) (some best) =
          some (l.foldl (fun best n => if beats n best then n else best) best) := by
      intro l
      induction l with
      | nil => exact fun _ _ _ => rfl
      | cons n l ih =>
        intro best hbest hl
        obtain ⟨hn, hl⟩ := List.forall_mem_cons.mp hl
        rw [List.foldl_cons, List.foldl_cons, hbeats n best hn hbest]
        by_cases hbetter : better n best
        · simpa [List.argAux, hbetter] using ih n hn hl
        · simpa [List.argAux, hbetter] using ih best hbest hl
    rw [List.foldl_cons]
    change _ ↔ ∃ n, v = .num n ∧ others.foldl (List.argAux better) (some first) = some n
    rw [hfold others first hfirst hothers, extremum]
    constructor
    · intro h
      cases h
      exact ⟨_, rfl, rfl⟩
    · rintro ⟨n, rfl, hn⟩
      rw [Option.some.inj hn]

theorem except_bind_ok {α β : Type} {x : Except String α} {f : α → Except String β} {b : β}
    (h : x >>= f = .ok b) : ∃ a, x = .ok a ∧ f a = .ok b := by
  cases x with
  | error e => cases h
  | ok a => exact ⟨a, rfl, h⟩

theorem sumValue_ok {v : Scalar} (h : sumValue py numbers = .ok v) :
    ∃ n, v = .num n ∧ py.sum numbers = some n ∧ n.isFinite = true := by
  unfold sumValue at h
  split at h
  · cases h
  · rename_i hsum
    cases h
    exact ⟨_, rfl, hsum, rfl⟩
  · rename_i hsum
    split at h
    · rename_i hfinite
      cases h
      exact ⟨_, rfl, hsum, hfinite⟩
    · cases h

/-- What an aggregate gives: the number that the rows come to, or a truth value of rows that
are truth values. -/
theorem aggregate_ok {v : Scalar} (h : aggregate py values kind = .ok v) :
    (∃ n, v = .num n ∧ n.isFinite = true ∧ ∀ m, ComesTo py kind values m ↔ m = n) ∨
      (∃ b, v = .bool b) ∧ strictItems values = true ∧ ∀ m, ¬ ComesTo py kind values m := by
  have hrows : ∀ {numbers numbers' : List PyNumber}, numbers.map row = numbers'.map row →
      numbers = numbers' := fun hsame => List.map_injective_iff.mpr (fun _ _ h => by
        cases h
        rfl) hsame
  cases kind with
  -- the numeric aggregates give the number they come to, and the other two a truth value
  | count =>
    cases h
    exact .inl ⟨_, rfl, rfl, fun m => Iff.rfl⟩
  | sum =>
    obtain ⟨numbers, hnumbers, hresult⟩ := except_bind_ok h
    obtain ⟨rfl, hfinite⟩ := requireNumbers_iff.mp hnumbers
    obtain ⟨n, rfl, hsum, hn⟩ := sumValue_ok hresult
    refine .inl ⟨n, rfl, hn, fun m => ⟨?_, ?_⟩⟩
    · rintro ⟨numbers', hsame, -, hsum', -⟩
      rw [← hrows hsame, hsum] at hsum'
      exact (Option.some.inj hsum').symm
    · rintro rfl
      exact ⟨numbers, rfl, hfinite, hsum, hn⟩
  | max =>
    obtain ⟨numbers, hnumbers, hresult⟩ := except_bind_ok h
    obtain ⟨rfl, hfinite⟩ := requireNumbers_iff.mp hnumbers
    obtain ⟨n, rfl, hlargest⟩ := (extremum_iff (fun a b => b.amount < a.amount)
      (fun _ _ ha hb => lt_eq_amount hb ha) hfinite).mp hresult
    change numbers.argmax PyNumber.amount = some n at hlargest
    refine .inl ⟨n, rfl, hfinite n (List.argmax_mem hlargest), fun m => ⟨?_, ?_⟩⟩
    · rintro ⟨numbers', hsame, -, hlargest'⟩
      rw [← hrows hsame, hlargest] at hlargest'
      exact (Option.some.inj hlargest').symm
    · rintro rfl
      exact ⟨numbers, rfl, hfinite, hlargest⟩
  | min =>
    obtain ⟨numbers, hnumbers, hresult⟩ := except_bind_ok h
    obtain ⟨rfl, hfinite⟩ := requireNumbers_iff.mp hnumbers
    obtain ⟨n, rfl, hsmallest⟩ := (extremum_iff (fun a b => a.amount < b.amount)
      (fun _ _ ha hb => lt_eq_amount ha hb) hfinite).mp hresult
    change numbers.argmin PyNumber.amount = some n at hsmallest
    refine .inl ⟨n, rfl, hfinite n (List.argmin_mem hsmallest), fun m => ⟨?_, ?_⟩⟩
    · rintro ⟨numbers', hsame, -, hsmallest'⟩
      rw [← hrows hsame, hsmallest] at hsmallest'
      exact (Option.some.inj hsmallest').symm
    · rintro rfl
      exact ⟨numbers, rfl, hfinite, hsmallest⟩
  -- `any` and `all` need truth values, which no number comes to
  | any =>
    obtain ⟨bools, hbools, hresult⟩ := except_bind_ok h
    cases hresult
    exact .inr ⟨⟨_, rfl⟩, bools_strict hbools, fun _ => id⟩
  | all =>
    obtain ⟨bools, hbools, hresult⟩ := except_bind_ok h
    cases hresult
    exact .inr ⟨⟨_, rfl⟩, bools_strict hbools, fun _ => id⟩

/-- Rows that come to a number are aggregated. -/
theorem aggregate_of_comesTo (h : ComesTo py kind values n) :
    ∃ v, aggregate py values kind = .ok v := by
  cases kind with
  | count => exact ⟨_, rfl⟩
  | any | all => exact h.elim
  | sum =>
    obtain ⟨numbers, rfl, hfinite, hsum, hn⟩ := h
    refine ⟨.num n, ?_⟩
    show (numbers.map row).mapM (requireNumber py .sum) >>= _ = _
    rw [requireNumbers_iff.mpr ⟨rfl, hfinite⟩]
    show sumValue py numbers = _
    cases n with
    | int i => rw [sumValue, hsum]
    | float f =>
      rw [sumValue, hsum]
      exact if_pos hn
  | max =>
    obtain ⟨numbers, rfl, hfinite, hlargest⟩ := h
    refine ⟨.num n, ?_⟩
    show (numbers.map row).mapM (requireNumber py .max) >>= _ = _
    rw [requireNumbers_iff.mpr ⟨rfl, hfinite⟩]
    exact (extremum_iff (fun a b => b.amount < a.amount)
      (fun _ _ ha hb => lt_eq_amount hb ha) hfinite).mpr ⟨n, rfl, hlargest⟩
  | min =>
    obtain ⟨numbers, rfl, hfinite, hsmallest⟩ := h
    refine ⟨.num n, ?_⟩
    show (numbers.map row).mapM (requireNumber py .min) >>= _ = _
    rw [requireNumbers_iff.mpr ⟨rfl, hfinite⟩]
    exact (extremum_iff (fun a b => a.amount < b.amount)
      (fun _ _ ha hb => lt_eq_amount ha hb) hfinite).mpr ⟨n, rfl, hsmallest⟩

/-! ## The comparator -/

/-- A timestamp whose integer is too long to print. -/
def TooLong (py : Python) (c : Compare) (v : Scalar) : Prop :=
  ∃ f i, c = .freshness f ∧ v = .num (.int i) ∧ py.fromTimestamp (.int i) = none ∧
    tooLong i = true

/-- What a comparator keeps of the value and the evidence. -/
structure Judged (e : Evidence) (v : Scalar) (o : AssertionOutcome) : Prop where
  expected : o.evidence.expected = e.expected
  observed : o.evidence.observed = e.observed
  sample : o.evidence.sample = e.sample
  age : ∀ seconds, o.evidence.ageSeconds = some seconds → seconds.isFinite = true
  value : o.value = v ∧ o.state ≠ .unknown ∨ o.value = .null ∧ o.state = .unknown
  state : o.state ≠ .skip

variable {e : Evidence} {v : Scalar} {now : Instant}

theorem Judged.unknown (hage : e.ageSeconds = none) (hobserved : e.observed = some (.scalar v))
    (reason : String) : Judged e v (unknown e reason none) :=
  ⟨rfl, by simp [Evaluate.unknown, hobserved], rfl, fun _ h => absurd (hage.symm.trans h) nofun,
    .inr ⟨rfl, rfl⟩, nofun⟩

variable {o : AssertionOutcome}

theorem Judged.state_of {state : CheckState} (hage : e.ageSeconds = none) (ho : o = ⟨state, v, e⟩)
    (hstate : state ≠ .unknown ∧ state ≠ .skip) : Judged e v o := by
  subst ho
  exact ⟨rfl, rfl, rfl, fun _ h => absurd (hage.symm.trans h) nofun, .inl ⟨rfl, hstate.1⟩, hstate.2⟩

theorem stateIf_judged (b : Bool) : stateIf b ≠ .unknown ∧ stateIf b ≠ .skip := by
  cases b
  · exact ⟨nofun, nofun⟩
  · exact ⟨nofun, nofun⟩

theorem thresholdState_judged (t : ThresholdCompare) (n : PyNumber) :
    thresholdState t n ≠ .unknown ∧ thresholdState t n ≠ .skip := by
  unfold thresholdState
  split
  · exact ⟨nofun, nofun⟩
  · split
    · exact ⟨nofun, nofun⟩
    · exact ⟨nofun, nofun⟩

theorem freshnessState_judged (f : FreshnessCompare) (seconds : PyFloat) :
    freshnessState f seconds ≠ .unknown ∧ freshnessState f seconds ≠ .skip := by
  unfold freshnessState
  split
  · exact ⟨nofun, nofun⟩
  · split
    · exact ⟨nofun, nofun⟩
    · exact ⟨nofun, nofun⟩

theorem compareThreshold_judged (t : ThresholdCompare) (hage : e.ageSeconds = none)
    (hobserved : e.observed = some (.scalar v)) : Judged e v (compareThreshold py t v e) := by
  unfold compareThreshold
  split
  · split
    · exact .state_of hage rfl (thresholdState_judged t _)
    · exact .unknown hage hobserved _
  · exact .state_of hage rfl (thresholdState_judged t _)
  · exact .unknown hage hobserved _

/-- Reading a timestamp raises for a number that is refused and too long, and for nothing else. -/
theorem parseTimestamp_error {message : String} (h : parseTimestamp py v = .error message) :
    ∃ i, v = .num (.int i) ∧ py.fromTimestamp (.int i) = none ∧ tooLong i = true := by
  unfold parseTimestamp at h
  split at h
  · split at h
    · cases h
    · cases h
    · cases h
  · cases h
  · rename_i n
    split at h
    · cases h
    · rename_i hnone
      cases n with
      | float f => cases h
      | int i =>
        refine ⟨i, rfl, hnone, ?_⟩
        cases hlong : tooLong i with
        | true => rfl
        | false =>
          simp only [reprNumber, hlong, Bool.false_eq_true, if_false] at h
          cases h
  · cases h

variable {c : Compare}

theorem compareValue_ok (hage : e.ageSeconds = none) (hobserved : e.observed = some (.scalar v))
    (h : ¬ TooLong py c v) : ∃ o, compareValue py c v now e = .ok o ∧ Judged e v o := by
  cases c with
  | threshold t => exact ⟨_, rfl, compareThreshold_judged t hage hobserved⟩
  | equals expected | isIn values hsome => exact ⟨_, rfl, .state_of hage rfl (stateIf_judged _)⟩
  | bool expect =>
    unfold compareValue
    cases v with
    | bool b => exact ⟨_, rfl, .state_of hage rfl (stateIf_judged _)⟩
    | null => exact ⟨_, rfl, .unknown hage hobserved _⟩
    | num n => exact ⟨_, rfl, .unknown hage hobserved _⟩
    | str text => exact ⟨_, rfl, .unknown hage hobserved _⟩
  | freshness f =>
    unfold compareValue compareFreshness
    cases hparse : parseTimestamp py v with
    | error message =>
      obtain ⟨i, hv, hnone, hlong⟩ := parseTimestamp_error hparse
      exact absurd ⟨f, i, rfl, hv, hnone, hlong⟩ h
    | ok read =>
      cases read with
      | error reason => exact ⟨_, rfl, .unknown hage hobserved _⟩
      | ok timestamp =>
        refine ⟨_, rfl, rfl, rfl, rfl, ?_, .inl ⟨rfl, (freshnessState_judged f _).1⟩,
          (freshnessState_judged f _).2⟩
        intro seconds hseconds
        cases hseconds
        rfl

theorem compareValue_error (h : TooLong py c v) :
    ∃ message, compareValue py c v now e = .error message := by
  obtain ⟨f, i, rfl, rfl, hnone, hlong⟩ := h
  refine ⟨"Exceeds the limit (4300 digits) for integer string conversion", ?_⟩
  simp only [compareValue, compareFreshness, parseTimestamp, hnone, reprNumber, hlong, if_true]
  rfl

/-- The number `n` is not ok for the comparator. -/
def Breaches (py : Python) (c : Compare) (n : PyNumber) (now : Instant) : Prop :=
  match c with
  | .threshold t => t.critical.any (violates n t.op) = true ∨
      t.degraded.any (violates n t.op) = true
  | .equals expected => strictEq (.num n) expected = false
  | .isIn values _ => values.any (strictEq (.num n)) = false
  | .bool _ => False
  | .freshness f => ∃ timestamp, py.fromTimestamp n = some timestamp ∧
      (PyNumber.lt (.float f.maxAgeSeconds) (.float (age py now timestamp)) = true ∨
        f.degradedAgeSeconds.any (fun bound =>
          PyNumber.lt (.float bound) (.float (age py now timestamp))) = true)

def AssertionOutcome.Breach (o : AssertionOutcome) : Prop := o.state = .degraded ∨ o.state = .critical

theorem stateIf_breach {b : Bool} : (stateIf b = .degraded ∨ stateIf b = .critical) ↔ b = false := by
  cases b
  · exact ⟨fun _ => rfl, fun _ => .inr rfl⟩
  · simp [stateIf]

/-- A state with a critical and a degraded condition. -/
theorem two_bounds_breach {critical degraded : Bool} :
    ((if critical then CheckState.critical else if degraded then .degraded else .ok) = .degraded ∨
      (if critical then CheckState.critical else if degraded then .degraded else .ok) = .critical) ↔
      critical = true ∨ degraded = true := by
  cases critical <;> cases degraded <;> simp

theorem compareValue_breach (hn : n.isFinite = true)
    (h : compareValue py c (.num n) now e = .ok o) : o.Breach ↔ Breaches py c n now := by
  cases c with
  | threshold t =>
    cases n with
    | int i =>
      cases h
      exact two_bounds_breach
    | float f =>
      simp only [compareValue, compareThreshold, show f.isFinite = true from hn, if_true] at h
      cases h
      exact two_bounds_breach
  | equals expected | isIn values hsome =>
    cases h
    exact stateIf_breach
  | bool expect =>
    cases h
    constructor
    · intro h
      rcases h with h | h <;> cases h
    · exact False.elim
  -- a number is read as seconds since the epoch, and what is no time is no breach
  | freshness f =>
    unfold compareValue compareFreshness at h
    cases hread : py.fromTimestamp n with
    | some timestamp =>
      simp only [parseTimestamp, hread, bind, Except.bind] at h
      cases h
      have hbreach : Breaches py (.freshness f) n now ↔ (PyNumber.lt (.float f.maxAgeSeconds)
          (.float (age py now timestamp)) = true ∨ f.degradedAgeSeconds.any (fun bound =>
            PyNumber.lt (.float bound) (.float (age py now timestamp))) = true) := by
        simp [Breaches, hread]
      rw [hbreach]
      exact two_bounds_breach
    | none =>
      cases hrepr : reprNumber py n with
      | error message =>
        simp only [parseTimestamp, hread, hrepr, bind, Except.bind] at h
        cases h
      | ok text =>
        simp only [parseTimestamp, hread, hrepr, bind, Except.bind, pure, Except.pure] at h
        cases h
        constructor
        · intro h
          rcases h with h | h <;> cases h
        · rintro ⟨timestamp, hsome, -⟩
          rw [hread] at hsome
          cases hsome

/-! ## Thresholds -/

variable {b a : PyNumber}

theorem PyNumber.lt_iff : a.lt b = true ↔ ∃ x y, a.place = some x ∧ b.place = some y ∧ x < y := by
  unfold PyNumber.lt
  cases a.place <;> cases b.place <;> simp

theorem PyNumber.le_iff : a.le b = true ↔ ∃ x y, a.place = some x ∧ b.place = some y ∧ x ≤ y := by
  unfold PyNumber.le
  cases a.place <;> cases b.place <;> simp

theorem PyNumber.lt_le {c : PyNumber} (h : a.lt b = true) (h' : b.le c = true) : a.lt c = true := by
  obtain ⟨x, y, hx, hy, hlt⟩ := PyNumber.lt_iff.mp h
  obtain ⟨y', z, hy', hz, hle⟩ := PyNumber.le_iff.mp h'
  cases hy.symm.trans hy'
  exact PyNumber.lt_iff.mpr ⟨x, z, hx, hz, hlt.trans_le hle⟩

theorem PyNumber.le_lt {c : PyNumber} (h : a.le b = true) (h' : b.lt c = true) : a.lt c = true := by
  obtain ⟨x, y, hx, hy, hle⟩ := PyNumber.le_iff.mp h
  obtain ⟨y', z, hy', hz, hlt⟩ := PyNumber.lt_iff.mp h'
  cases hy.symm.trans hy'
  exact PyNumber.lt_iff.mpr ⟨x, z, hx, hz, hle.trans_lt hlt⟩

theorem PyNumber.le_le {c : PyNumber} (h : a.le b = true) (h' : b.le c = true) : a.le c = true := by
  obtain ⟨x, y, hx, hy, hle⟩ := PyNumber.le_iff.mp h
  obtain ⟨y', z, hy', hz, hle'⟩ := PyNumber.le_iff.mp h'
  cases hy.symm.trans hy'
  exact PyNumber.le_iff.mpr ⟨x, z, hx, hz, hle.trans hle'⟩

/-- `n'` is at least as far in the direction of the operator. -/
def Further (op : ThresholdOp) (n n' : PyNumber) : Prop :=
  match op with
  | .gt | .gte => n.le n' = true
  | .lt | .lte => n'.le n = true

/-- How bad a judged state is. -/
def rank : CheckState → Nat
  | .ok => 0
  | .degraded => 1
  | _ => 2

variable {n' : PyNumber}

theorem violates_further {op : ThresholdOp} {bound : PyFloat} (h : Further op n n')
    (hn : violates n op bound = true) : violates n' op bound = true := by
  cases op with
  | gt => exact PyNumber.lt_le hn h
  | gte => exact PyNumber.le_le hn h
  | lt => exact PyNumber.le_lt h hn
  | lte => exact PyNumber.le_le h hn

theorem any_violates_further {op : ThresholdOp} {bound : Option PyFloat} (h : Further op n n')
    (hn : bound.any (violates n op) = true) : bound.any (violates n' op) = true := by
  cases bound with
  | none => cases hn
  | some b => exact violates_further h hn

theorem thresholdState_mono (t : ThresholdCompare) (h : Further t.op n n') :
    rank (thresholdState t n) ≤ rank (thresholdState t n') := by
  unfold thresholdState
  by_cases hcritical : t.critical.any (violates n t.op) = true
  · rw [if_pos hcritical, if_pos (any_violates_further h hcritical)]
  · rw [if_neg hcritical]
    by_cases hdegraded : t.degraded.any (violates n t.op) = true
    · rw [if_pos hdegraded, if_pos (any_violates_further h hdegraded)]
      split
      · decide
      · decide
    · rw [if_neg hdegraded]
      exact Nat.zero_le _

theorem compareThreshold_state {t : ThresholdCompare}
    (h : (compareThreshold py t v e).value = .num n) :
    (compareThreshold py t v e).state = thresholdState t n := by
  unfold compareThreshold at h ⊢
  split at h
  · split at h
    · rename_i hfinite
      cases h
      rw [if_pos hfinite]
    · cases h
  · cases h
    rfl
  · cases h

/-! ## The whole evaluation -/

theorem withOffenderSample_state (o : AssertionOutcome) (kind : Option Aggregate)
    (selected : Payload) : (withOffenderSample o kind selected).state = o.state ∧
      (withOffenderSample o kind selected).value = o.value := by
  unfold withOffenderSample
  split
  · split
    · exact ⟨rfl, rfl⟩
    · exact ⟨rfl, rfl⟩
  · exact ⟨rfl, rfl⟩

variable {selected : Payload}

theorem withOffenderSample_strict {kind : Option Aggregate} (hsample : o.evidence.sample = none) :
    (withOffenderSample o kind selected).Strict ↔ o.Strict ∧
      (kind.isSome = true → ∀ rows, selected = .arr rows → o.Breach →
        strictItems (rows.take evidenceSampleLimit) = true) := by
  have hplain : ∀ {P : Prop}, P → (o.Strict ↔ o.Strict ∧ P) := fun hp =>
    ⟨fun h => ⟨h, hp⟩, And.left⟩
  unfold withOffenderSample
  split
  · rename_i kind' row rows
    by_cases hbreach : o.state = .degraded ∨ o.state = .critical
    · rw [if_pos hbreach]
      constructor
      · intro h
        refine ⟨⟨h.value, h.evidence.expected, h.evidence.observed, h.evidence.age, ?_⟩, ?_⟩
        · intro items hitems
          rw [hsample] at hitems
          cases hitems
        · intro _ rows' hrows _
          cases hrows
          exact h.evidence.sample _ rfl
      · rintro ⟨h, hrows⟩
        refine ⟨h.value, h.evidence.expected, h.evidence.observed, h.evidence.age, ?_⟩
        intro items hitems
        cases hitems
        exact hrows rfl _ rfl hbreach
    · rw [if_neg hbreach]
      exact hplain fun _ _ _ h => absurd h hbreach
  · rename_i hother
    refine hplain fun hkind rows hrows _ => ?_
    subst hrows
    cases kind with
    | none => cases hkind
    | some kind' =>
      cases rows with
      | nil => rfl
      | cons row rows => exact absurd rfl (hother kind' row rows rfl)

/-- **What keeps an evaluation strict**: the comparator's own values have texts in strict JSON, and
so has a number that the path selects as it is, the number that selected rows come to, and, where
that number is not ok, what is sampled of the rows. -/
structure Holds (py : Python) (spec : AssertionSpec) (payload : Payload) (now : Instant) :
    Prop where
  bounds : spec.compare.isStrict = true
  scalar : spec.select.aggregate = none → ∀ v,
    select payload spec.select.segments = .ok (.scalar v) → v.isStrict = true
  number : ∀ kind rows n, spec.select.aggregate = some kind →
    select payload spec.select.segments = .ok (.arr rows) → ComesTo py kind rows n →
      n.isStrict = true
  sample : ∀ kind rows n, spec.select.aggregate = some kind →
    select payload spec.select.segments = .ok (.arr rows) → ComesTo py kind rows n →
      Breaches py spec.compare n now → strictItems (rows.take evidenceSampleLimit) = true

/-- The evaluation does not raise, its state is one of the four, and everything in it is strict
JSON; a payload whose value is further past a threshold gets no better state. -/
def Sound (py : Python) (spec : AssertionSpec) (payload : Payload) (now : Instant) : Prop :=
  ∃ o, evaluateAssertion py spec payload now = .ok o ∧ o.state ≠ .skip ∧ o.Strict ∧
    ∀ t, spec.compare = .threshold t → ∀ payload' o' n n',
      evaluateAssertion py spec payload' now = .ok o' → o.value = .num n → o'.value = .num n' →
        Further t.op n n' → rank o.state ≤ rank o'.state

variable {spec : AssertionSpec} {payload : Payload}

/-- The evidence before anything is selected. -/
def firstEvidence (spec : AssertionSpec) : Evidence :=
  ⟨spec.select.path, spec.select.aggregate.map (·.text), spec.compare.type,
    expectedEvidence spec.compare, none, none, none, none, false⟩

theorem evaluateAssertion_eq : evaluateAssertion py spec payload now =
    match select payload spec.select.segments with
    | .error reason => .ok (unknown (firstEvidence spec) reason none)
    | .ok selected =>
      match judgedValue py selected spec.select.aggregate with
      | .error (reason, observed) => .ok (unknown (firstEvidence spec) reason observed)
      | .ok value => (compareValue py spec.compare value now
          { firstEvidence spec with observed := some (.scalar value) }).map
            (withOffenderSample · spec.select.aggregate selected) := by
  unfold evaluateAssertion
  rw [spec.select.compiled]
  rfl

variable {reason : String} {observed : Option Payload}

theorem unknown_state : (unknown e reason observed).state ≠ .skip := by
  intro h
  cases h

theorem unknown_strict (hobserved : ∀ value, observed = some value → value.isStrict = true) :
    (unknown (firstEvidence spec) reason observed).Strict ↔ spec.compare.isStrict = true := by
  rw [← expectedEvidence_strict]
  constructor
  · exact fun h => h.evidence.expected
  · intro h
    refine ⟨rfl, h, ?_, nofun, nofun⟩
    intro value hvalue
    cases observed with
    | none =>
      cases hvalue
      rfl
    | some value' =>
      cases hvalue
      exact hobserved value rfl

theorem judgedValue_error {kind : Option Aggregate}
    (h : judgedValue py selected kind = .error (reason, observed)) :
    ∀ value, observed = some value → value.isStrict = true := by
  have hname : ∀ {name : String}, observed = some (.scalar (.str name)) →
      ∀ value, observed = some value → value.isStrict = true := by
    intro name hobserved value hvalue
    cases hobserved.symm.trans hvalue
    rfl
  cases kind with
  | none =>
    cases selected with
    | scalar s => cases h
    | arr values => exact hname (by cases h; rfl)
    | obj fields => exact hname (by cases h; rfl)
  | some kind' =>
    cases selected with
    | scalar s => exact hname (by cases h; rfl)
    | obj fields => exact hname (by cases h; rfl)
    | arr values =>
      unfold judgedValue at h
      cases haggregate : aggregate py values kind' with
      | ok v =>
        simp only [haggregate] at h
        cases h
      | error reason' =>
        simp only [haggregate] at h
        cases h
        exact nofun

theorem judgedValue_ok {kind : Option Aggregate} {v : Scalar}
    (h : judgedValue py selected kind = .ok v) :
    (kind = none ∧ selected = .scalar v) ∨
      ∃ kind' values, kind = some kind' ∧ selected = .arr values ∧
        aggregate py values kind' = .ok v := by
  cases kind with
  | none =>
    cases selected with
    | scalar s =>
      cases h
      exact .inl ⟨rfl, rfl⟩
    | arr values => cases h
    | obj fields => cases h
  | some kind' =>
    cases selected with
    | scalar s => cases h
    | obj fields => cases h
    | arr values =>
      unfold judgedValue at h
      cases haggregate : aggregate py values kind' with
      | error reason =>
        simp only [haggregate] at h
        cases h
      | ok v' =>
        simp only [haggregate] at h
        cases h
        exact .inr ⟨kind', values, rfl, rfl, haggregate⟩

theorem evaluateAssertion_threshold {t : ThresholdCompare} (ht : spec.compare = .threshold t)
    (h : evaluateAssertion py spec payload now = .ok o) (hvalue : o.value = .num n) :
    o.state = thresholdState t n := by
  rw [evaluateAssertion_eq] at h
  split at h
  · cases h
    cases hvalue
  · split at h
    · cases h
      cases hvalue
    · rw [ht] at h
      cases h
      rw [(withOffenderSample_state _ _ _).2] at hvalue
      rw [(withOffenderSample_state _ _ _).1]
      exact compareThreshold_state hvalue

/-- The condition, where a value is judged. -/
theorem holds_iff (hselected : select payload spec.select.segments = .ok selected)
    (hvalue : judgedValue py selected spec.select.aggregate = .ok v) :
    Holds py spec payload now ↔ spec.compare.isStrict = true ∧ v.isStrict = true ∧
      (spec.select.aggregate.isSome = true → ∀ rows, selected = .arr rows → ∀ n, v = .num n →
        Breaches py spec.compare n now → strictItems (rows.take evidenceSampleLimit) = true) := by
  obtain ⟨hnone, rfl⟩ | ⟨kind, values, hkind, rfl, haggregate⟩ := judgedValue_ok hvalue
  · constructor
    · intro h
      exact ⟨h.bounds, h.scalar hnone v hselected, fun _ _ hrows => nomatch hrows⟩
    · rintro ⟨hbounds, hv, -⟩
      refine ⟨hbounds, fun _ v' hv' => ?_, fun kind _ _ hkind => ?_, fun kind _ _ hkind => ?_⟩
      · cases hselected.symm.trans hv'
        exact hv
      · cases hnone.symm.trans hkind
      · cases hnone.symm.trans hkind
  · constructor
    · intro h
      obtain ⟨n, rfl, -, hn⟩ | ⟨⟨b, rfl⟩, -, -⟩ := aggregate_ok haggregate
      · have hcomes : ComesTo py kind values n := (hn n).mpr rfl
        refine ⟨h.bounds, h.number kind values n hkind hselected hcomes, ?_⟩
        intro _ rows hrows m hm
        cases hrows
        cases hm
        exact h.sample kind values n hkind hselected hcomes
      · exact ⟨h.bounds, rfl, fun _ _ _ _ hb => nomatch hb⟩
    · rintro ⟨hbounds, hv, hsample⟩
      -- what the rows come to is the judged value
      have hjudged : ∀ {kind' : Aggregate} {rows : List Payload} {n : PyNumber},
          spec.select.aggregate = some kind' →
          select payload spec.select.segments = .ok (.arr rows) → ComesTo py kind' rows n →
          rows = values ∧ v = .num n := by
        intro kind' rows n hkind' hrows hcomes
        cases hkind.symm.trans hkind'
        cases hselected.symm.trans hrows
        obtain ⟨m, rfl, -, hm⟩ | ⟨-, -, hno⟩ := aggregate_ok haggregate
        · exact ⟨rfl, by rw [(hm n).mp hcomes]⟩
        · exact absurd hcomes (hno n)
      refine ⟨hbounds, fun hnone => absurd (hnone.symm.trans hkind) nofun, ?_, ?_⟩
      · intro kind' rows n hkind' hrows hcomes
        obtain ⟨-, rfl⟩ := hjudged hkind' hrows hcomes
        exact hv
      · intro kind' rows n hkind' hrows hcomes
        obtain ⟨rfl, rfl⟩ := hjudged hkind' hrows hcomes
        exact hsample (by rw [hkind]; rfl) _ rfl n rfl

theorem judged_strict (hselected : select payload spec.select.segments = .ok selected)
    (hvalue : judgedValue py selected spec.select.aggregate = .ok v)
    (hjudged : Judged { firstEvidence spec with observed := some (.scalar v) } v o)
    (hcompare : compareValue py spec.compare v now
      { firstEvidence spec with observed := some (.scalar v) } = .ok o) :
    (withOffenderSample o spec.select.aggregate selected).Strict ↔ Holds py spec payload now := by
  have hstrict : o.Strict ↔ spec.compare.isStrict = true ∧ v.isStrict = true := by
    -- the value, the bounds and the sample of rows are all the evidence there is
    have hexpected : o.evidence.expected = expectedEvidence spec.compare := hjudged.expected
    rw [← expectedEvidence_strict]
    constructor
    · intro h
      exact ⟨hexpected ▸ h.evidence.expected, h.evidence.observed (.scalar v) hjudged.observed⟩
    · rintro ⟨hbounds, hv⟩
      refine ⟨?_, hexpected ▸ hbounds, ?_, hjudged.age, ?_⟩
      · rcases hjudged.value with ⟨hsame, -⟩ | ⟨hnull, -⟩
        · rw [hsame]
          exact hv
        · rw [hnull]
          rfl
      · intro value hobserved
        cases hjudged.observed.symm.trans hobserved
        exact hv
      · intro rows hrows
        cases hjudged.sample.symm.trans hrows
  rw [withOffenderSample_strict hjudged.sample, hstrict, holds_iff hselected hvalue, and_assoc]
  refine and_congr_right fun _ => and_congr_right fun _ => forall_congr' fun hkind =>
    forall_congr' fun rows => forall_congr' fun hrows => ?_
  subst hrows
  obtain ⟨hnone, hscalar⟩ | ⟨kind, values, -, hvalues, haggregate⟩ := judgedValue_ok hvalue
  · cases hscalar
  · cases hvalues
    obtain ⟨n, rfl, hn, -⟩ | ⟨⟨b, rfl⟩, hrows, -⟩ := aggregate_ok haggregate
    · rw [compareValue_breach hn hcompare]
      constructor
      · intro h m hm
        cases hm
        exact h
      · intro h
        exact h n rfl
    · constructor
      · exact fun _ m hm => nomatch hm
      -- `any` and `all` have looked at every row, so the sample is strict as well
      · exact fun _ _ => strictItems_iff.mpr fun item hitem =>
          strictItems_iff.mp hrows item (List.mem_of_mem_take hitem)

/-- **When an evaluation is total and strict.** -/
theorem evaluation_strict_iff : Sound py spec payload now ↔ Holds py spec payload now := by
  have hmono : ∀ {o : AssertionOutcome}, evaluateAssertion py spec payload now = .ok o →
      ∀ t, spec.compare = .threshold t → ∀ payload' o' n n',
        evaluateAssertion py spec payload' now = .ok o' → o.value = .num n → o'.value = .num n' →
          Further t.op n n' → rank o.state ≤ rank o'.state := by
    intro o ho t ht payload' o' n n' ho' hn hn' hfurther
    rw [evaluateAssertion_threshold ht ho hn, evaluateAssertion_threshold ht ho' hn']
    exact thresholdState_mono t hfurther
  -- on an outcome that is no skip, only the strictness of its evidence is left to decide
  have hsound : ∀ {o : AssertionOutcome}, evaluateAssertion py spec payload now = .ok o →
      o.state ≠ .skip → (Sound py spec payload now ↔ o.Strict) := by
    intro o ho hstate
    constructor
    · rintro ⟨o', ho', -, hstrict, -⟩
      cases ho.symm.trans ho'
      exact hstrict
    · exact fun hstrict => ⟨o, ho, hstate, hstrict, hmono ho⟩
  have hevaluate := @evaluateAssertion_eq py now spec payload
  cases hselected : select payload spec.select.segments with
  -- nothing was selected: the evidence is the spec's own part
  | error reason =>
    simp only [hselected] at hevaluate
    have hnone : ∀ value, (none : Option Payload) = some value → value.isStrict = true := nofun
    rw [hsound hevaluate unknown_state, unknown_strict hnone]
    constructor
    · intro h
      exact ⟨h, fun _ v hv => absurd (hselected.symm.trans hv) nofun,
        fun _ _ _ _ hrows => absurd (hselected.symm.trans hrows) nofun,
        fun _ _ _ _ hrows => absurd (hselected.symm.trans hrows) nofun⟩
    · exact Holds.bounds
  | ok selected =>
    cases hvalue : judgedValue py selected spec.select.aggregate with
    -- nothing to judge: no aggregate of the rows comes to a number
    | error e =>
      obtain ⟨reason, observed⟩ := e
      simp only [hselected, hvalue] at hevaluate
      rw [hsound hevaluate unknown_state, unknown_strict (judgedValue_error hvalue)]
      constructor
      · intro h
        have hno : ∀ {kind rows n}, spec.select.aggregate = some kind →
            select payload spec.select.segments = .ok (.arr rows) →
              ¬ ComesTo py kind rows n := by
          intro kind rows n hkind hrows hcomes
          obtain ⟨v, hv⟩ := aggregate_of_comesTo hcomes
          cases hselected.symm.trans hrows
          simp only [hkind, judgedValue, hv] at hvalue
          cases hvalue
        refine ⟨h, fun hnone v hv => ?_, fun kind rows n hkind hrows hcomes => ?_,
          fun kind rows n hkind hrows hcomes => ?_⟩
        · cases hselected.symm.trans hv
          rw [hnone] at hvalue
          cases hvalue
        · exact absurd hcomes (hno hkind hrows)
        · exact absurd hcomes (hno hkind hrows)
      · exact Holds.bounds
    | ok v =>
      simp only [hselected, hvalue] at hevaluate
      by_cases hlong : TooLong py spec.compare v
      · obtain ⟨message, hraises⟩ := @compareValue_error py
          { firstEvidence spec with observed := some (.scalar v) } v now _ hlong
        -- an integer too long to print makes the comparison raise
        rw [hraises] at hevaluate
        constructor
        · rintro ⟨o, ho, -⟩
          cases hevaluate.symm.trans ho
        · intro h
          obtain ⟨f, i, -, rfl, -, htooLong⟩ := hlong
          have hv := ((holds_iff hselected hvalue).mp h).2.1
          simp [Scalar.isStrict, PyNumber.isStrict, htooLong] at hv
      · obtain ⟨o, ho, hjudged⟩ := @compareValue_ok py
          { firstEvidence spec with observed := some (.scalar v) } v now _ rfl rfl hlong
        rw [ho] at hevaluate
        have hstate : (withOffenderSample o spec.select.aggregate selected).state ≠ .skip := by
          rw [(withOffenderSample_state _ _ _).1]
          exact hjudged.state
        rw [hsound hevaluate hstate]
        exact judged_strict hselected hvalue hjudged ho

end Evaluator

/-! ## A sample -/

/-- Nothing is parsed or refused that the sample does not use. -/
def samplePython : Python where
  reprStr s := "'" ++ s ++ "'"
  reprFloat _ := "nan"
  fromIsoformat _ := none
  fromTimestamp _ := none
  sum _ := none
  totalSeconds us := us / 1000000

theorem loadPath_compiled : parsePath "$.load" = some [.key "load"] := by
  have hkey : matchSegment ['.', 'l', 'o', 'a', 'd'] = some (.key "load", []) := by decide +kernel
  unfold parsePath
  simp only [String.reduceToList]
  rw [parseSegments]
  split
  · rename_i h
    cases hkey.symm.trans h
  · rename_i h
    cases hkey.symm.trans h
  · rename_i h
    cases hkey.symm.trans h
    rw [parseSegments]
    rfl

def loadSpec : AssertionSpec :=
  ⟨⟨"$.load", none, [.key "load"], loadPath_compiled⟩, .equals (.num (.int 1))⟩

/-- `json.loads` of a NaN: the comparator finds it unequal, and it goes into value and evidence. -/
def nanPayload : Payload := .obj [("load", .scalar (.num (.float .nan)))]

theorem nan_in_evidence : ¬ Sound samplePython loadSpec nanPayload 0 := by
  rintro ⟨o, ho, -, hstrict, -⟩
  rw [evaluateAssertion_eq] at ho
  have hvalue : o.value = .num (.float .nan) := by
    cases ho
    rfl
  have hfinite := hstrict.value
  rw [hvalue] at hfinite
  cases hfinite

end Meho.Checks.Evaluate
