import Mathlib.Algebra.Order.Field.Rat
import Mathlib.Order.WithBot
import Meho.Checks.Sensor

/- The evaluator of assertions (checks/evaluate.py, checks/assertions.py).

A path selects from the payload, an aggregate may reduce what it selects, and a comparator
judges the value. Payloads are what `json.loads` gives: floats may be NaN or infinite, integers
have any size. What the evaluator raises is an error; a mismatch is the state `unknown` with a
reason. The schema's checks are fields of the spec. The evidence, a dictionary, is a record of
its entries.

Floats are compared exactly, as Python does; what rounds, parses or prints is a parameter
(`Python`).

Correspondence: `_compare_threshold` ↔ `thresholdState`, `_compare` ↔ `compareValue`;
what is not listed keeps its name. -/
namespace Meho.Checks.Evaluate

/-! ## Payloads -/

/-- A float, with the rational it stands for. -/
inductive PyFloat where
  | finite (value : ℚ)
  | nan
  | inf (negative : Bool)
  deriving DecidableEq

inductive PyNumber where
  | int (i : Int)
  | float (f : PyFloat)
  deriving DecidableEq

inductive Scalar where
  | null
  | bool (b : Bool)
  | num (n : PyNumber)
  | str (s : String)
  deriving DecidableEq

/-- The reading an assertion selects from. -/
inductive Payload where
  | scalar (s : Scalar)
  | arr (items : List Payload)
  | obj (fields : List (String × Payload))

def PyFloat.isFinite : PyFloat → Bool
  | .finite _ => true
  | _ => false

def PyNumber.isFinite : PyNumber → Bool
  | .int _ => true
  | .float f => f.isFinite

/-- The digits that `int` reads and prints at most. -/
def maxStrDigits : Nat := 4300

def tooLong (i : Int) : Bool := maxStrDigits < (Nat.toDigits 10 i.natAbs).length

/-- Strict JSON has a text for the number: a float is finite, an integer not too long to print. -/
def PyNumber.isStrict : PyNumber → Bool
  | .int i => !tooLong i
  | .float f => f.isFinite

def Scalar.isStrict : Scalar → Bool
  | .num n => n.isStrict
  | _ => true

mutual
/-- Every number in the payload has a text in strict JSON. -/
def Payload.isStrict : Payload → Bool
  | .scalar s => s.isStrict
  | .arr items => strictItems items
  | .obj fields => strictFields fields

def strictItems : List Payload → Bool
  | [] => true
  | item :: items => item.isStrict && strictItems items

def strictFields : List (String × Payload) → Bool
  | [] => true
  | (_, value) :: fields => value.isStrict && strictFields fields
end

def typename : Payload → String
  | .scalar .null => "null"
  | .scalar (.bool _) => "bool"
  | .scalar (.num (.int _)) => "int"
  | .scalar (.num (.float _)) => "float"
  | .scalar (.str _) => "str"
  | .arr _ => "array"
  | .obj _ => "object"

/-! ## Comparisons -/

/-- The place of a number in the order; NaN has none. -/
def PyFloat.place : PyFloat → Option (WithBot (WithTop ℚ))
  | .finite q => some ((q : WithTop ℚ) : WithBot (WithTop ℚ))
  | .nan => none
  | .inf true => some ⊥
  | .inf false => some ((⊤ : WithTop ℚ) : WithBot (WithTop ℚ))

def PyNumber.place : PyNumber → Option (WithBot (WithTop ℚ))
  | .int i => (PyFloat.finite i).place
  | .float f => f.place

/-- `a < b`. -/
def PyNumber.lt (a b : PyNumber) : Bool :=
  match a.place, b.place with
  | some x, some y => x < y
  | _, _ => false

/-- `a <= b`. -/
def PyNumber.le (a b : PyNumber) : Bool :=
  match a.place, b.place with
  | some x, some y => x ≤ y
  | _, _ => false

/-- `a == b`. -/
def PyNumber.eq (a b : PyNumber) : Bool :=
  match a.place, b.place with
  | some x, some y => x = y
  | _, _ => false

inductive ThresholdOp where
  | gt
  | gte
  | lt
  | lte
  deriving DecidableEq, Repr

def ThresholdOp.text : ThresholdOp → String
  | .gt => "gt"
  | .gte => "gte"
  | .lt => "lt"
  | .lte => "lte"

def violates (value : PyNumber) (op : ThresholdOp) (bound : PyFloat) : Bool :=
  match op with
  | .gt => PyNumber.lt (.float bound) value
  | .gte => PyNumber.le (.float bound) value
  | .lt => value.lt (.float bound)
  | .lte => value.le (.float bound)

/-- Booleans are equal to booleans only. -/
def strictEq : Scalar → Scalar → Bool
  | .null, .null => true
  | .bool b, .bool b' => b = b'
  | .num n, .num n' => n.eq n'
  | .str s, .str s' => s = s'
  | _, _ => false

/-! ## Specs -/

/-- `_check_bounds`. -/
def checkBounds (op : ThresholdOp) (degraded critical : Option PyFloat) : Bool :=
  degraded.all (·.isFinite) && critical.all (·.isFinite) && (degraded.isSome || critical.isSome) &&
    match degraded, critical with
    | some d, some c =>
      match op with
      | .gt | .gte => ! PyNumber.lt (.float c) (.float d)
      | .lt | .lte => ! PyNumber.lt (.float d) (.float c)
    | _, _ => true

structure ThresholdCompare where
  op : ThresholdOp
  degraded : Option PyFloat
  critical : Option PyFloat
  bounds : checkBounds op degraded critical = true

/-- `Field(gt=0)` of both ages and `_check_ages`. -/
def checkAges (maxAge : PyFloat) (degradedAge : Option PyFloat) : Bool :=
  PyNumber.lt (.int 0) (.float maxAge) && degradedAge.all fun age =>
    PyNumber.lt (.int 0) (.float age) && ! PyNumber.le (.float maxAge) (.float age)

structure FreshnessCompare where
  maxAgeSeconds : PyFloat
  degradedAgeSeconds : Option PyFloat
  ages : checkAges maxAgeSeconds degradedAgeSeconds = true

inductive Compare where
  | threshold (t : ThresholdCompare)
  | equals (value : Scalar)
  | isIn (values : List Scalar) (some : values ≠ [])
  | bool (expect : Bool)
  | freshness (f : FreshnessCompare)

def Compare.type : Compare → String
  | .threshold _ => "threshold"
  | .equals _ => "equals"
  | .isIn _ _ => "in"
  | .bool _ => "bool"
  | .freshness _ => "freshness"

inductive Aggregate where
  | max
  | min
  | sum
  | count
  | any
  | all
  deriving DecidableEq, Repr

def Aggregate.text : Aggregate → String
  | .max => "max"
  | .min => "min"
  | .sum => "sum"
  | .count => "count"
  | .any => "any"
  | .all => "all"

/-! ## Paths -/

inductive PathSegment where
  | key (name : String)
  | index (idx : Nat)
  | wildcard
  deriving DecidableEq, Repr

def isNameChar (c : Char) : Bool := c.isAlphanum || c = '_' || c = '-'

/-- `_PATH_SEGMENT_RE.match`: a segment and what is behind it. -/
def matchSegment : List Char → Option (PathSegment × List Char)
  | '.' :: rest =>
    match rest.takeWhile isNameChar with
    | [] => none
    | name => some (.key (String.ofList name), rest.dropWhile isNameChar)
  | '[' :: '*' :: ']' :: rest => some (.wildcard, rest)
  | '[' :: rest =>
    let digits := rest.takeWhile Char.isDigit
    match rest.dropWhile Char.isDigit with
    | ']' :: more =>
      if digits = [] ∨ maxStrDigits < digits.length then none
      else some (.index (Nat.ofDigitChars 10 digits 0), more)
    | _ => none
  | _ => none

theorem matchSegment_shorter {text rest : List Char} {segment : PathSegment}
    (h : matchSegment text = some (segment, rest)) : rest.length < text.length := by
  unfold matchSegment at h
  split at h
  · rename_i tail
    split at h
    · cases h
    · cases h
      exact Nat.lt_succ_of_le (List.dropWhile_sublist _).length_le
  · cases h
    simp only [List.length_cons]
    omega
  · rename_i tail _
    dsimp only at h
    split at h
    · rename_i more hdrop
      split at h
      · cases h
      · cases h
        have hle := (List.dropWhile_sublist (l := tail) Char.isDigit).length_le
        rw [hdrop, List.length_cons] at hle
        rw [List.length_cons]
        omega
    · cases h
  · cases h

/-- The segments up to the end of the path, with one wildcard at most. -/
def parseSegments (text : List Char) (wildcards : Nat) : Option (List PathSegment) :=
  match text with
  | [] => some []
  | c :: cs =>
    match _h : matchSegment (c :: cs) with
    | none => none
    | some (.wildcard, rest) =>
      if 0 < wildcards then none else (parseSegments rest 1).map (.wildcard :: ·)
    | some (segment, rest) => (parseSegments rest wildcards).map (segment :: ·)
termination_by text.length
decreasing_by
  · exact matchSegment_shorter _h
  · exact matchSegment_shorter _h

def parsePath (path : String) : Option (List PathSegment) :=
  match path.toList with
  | '$' :: rest => parseSegments rest 0
  | _ => none

/-- A selection whose path compiles. -/
structure SelectSpec where
  path : String
  aggregate : Option Aggregate
  segments : List PathSegment
  compiled : parsePath path = some segments

structure AssertionSpec where
  select : SelectSpec
  compare : Compare

/-! ## Select -/

def navigate : Payload → List PathSegment → Except String Payload
  | value, [] => .ok value
  | value, .key name :: rest =>
    match value with
    | .obj fields =>
      match fields.find? (·.1 = name) with
      | none => .error ("missing key '" ++ name ++ "'")
      | some (_, next) => navigate next rest
    | other => .error ("expected object at '." ++ name ++ "', found " ++ typename other)
  | value, .index idx :: rest =>
    match value with
    | .arr items =>
      match items[idx]? with
      | none => .error ("index [" ++ toString idx ++ "] out of range (length " ++
          toString items.length ++ ")")
      | some next => navigate next rest
    | other => .error ("expected array at '[" ++ toString idx ++ "]', found " ++ typename other)
  | _, .wildcard :: _ => .error "unexpected wildcard during navigation"

/-- The rest of the path over every element. -/
def project (segments : List PathSegment) : Nat → List Payload → Except String (List Payload)
  | _, [] => .ok []
  | i, element :: elements =>
    match navigate element segments with
    | .error reason => .error ("'[*]' element " ++ toString i ++ ": " ++ reason)
    | .ok value => (project segments (i + 1) elements).map (value :: ·)

def select (payload : Payload) (segments : List PathSegment) : Except String Payload :=
  match segments.dropWhile (· ≠ .wildcard) with
  | [] => navigate payload segments
  | _ :: behind =>
    match navigate payload (segments.takeWhile (· ≠ .wildcard)) with
    | .error reason => .error reason
    | .ok (.arr items) => (project behind 0 items).map .arr
    | .ok base => .error ("expected array before '[*]', found " ++ typename base)

/-! ## Values -/

/-- Microseconds since the epoch. -/
abbrev Instant := Int

/-- What Python rounds, parses and prints. -/
structure Python where
  reprStr : String → String
  reprFloat : PyFloat → String
  /-- `datetime.fromisoformat`, and whether there is an offset. -/
  fromIsoformat : String → Option (Instant × Bool)
  /-- `datetime.fromtimestamp`, none where it raises. -/
  fromTimestamp : PyNumber → Option Instant
  /-- `sum`, none where it overflows. -/
  sum : List PyNumber → Option PyNumber
  /-- `timedelta.total_seconds`. -/
  totalSeconds : Int → ℚ

section Evaluator
variable (py : Python)

/-- `repr` of a number; an integer that is too long is a `ValueError`. -/
def reprNumber : PyNumber → Except String String
  | .int i =>
    if tooLong i then
      .error "Exceeds the limit (4300 digits) for integer string conversion"
    else .ok (toString i)
  | .float f => .ok (py.reprFloat f)

def requireNumber (aggregate : Aggregate) : Payload → Except String PyNumber
  | .scalar (.num n) =>
    match n with
    | .int i => .ok (.int i)
    | .float f =>
      if f.isFinite then .ok (.float f)
      else .error ("aggregate '" ++ aggregate.text ++ "' requires finite numbers, found " ++
        py.reprFloat f)
  | other => .error ("aggregate '" ++ aggregate.text ++ "' requires numbers, found " ++
      typename other)

def requireBool (aggregate : Aggregate) : Payload → Except String Bool
  | .scalar (.bool b) => .ok b
  | other => .error ("aggregate '" ++ aggregate.text ++ "' requires booleans, found " ++
      typename other)

def sumValue (numbers : List PyNumber) : Except String Scalar :=
  match py.sum numbers with
  | none => .error "aggregate 'sum' overflows the float range"
  | some (.int i) => .ok (.num (.int i))
  | some (.float f) =>
    if f.isFinite then .ok (.num (.float f))
    else .error ("aggregate 'sum' is non-finite (" ++ py.reprFloat f ++ ")")

/-- The first of the numbers that no other one beats. -/
def extremum (aggregate : Aggregate) (beats : PyNumber → PyNumber → Bool) :
    List PyNumber → Except String Scalar
  | [] => .error ("aggregate '" ++ aggregate.text ++ "' is undefined on an empty list")
  | first :: others =>
    .ok (.num (others.foldl (fun best n => if beats n best then n else best) first))

def aggregate (values : List Payload) : Aggregate → Except String Scalar
  | .count => .ok (.num (.int values.length))
  | .sum => do sumValue py (← values.mapM (requireNumber py .sum))
  | .max => do extremum .max (fun n best => best.lt n) (← values.mapM (requireNumber py .max))
  | .min => do extremum .min (fun n best => n.lt best) (← values.mapM (requireNumber py .min))
  | .any => do return .bool ((← values.mapM (requireBool .any)).any id)
  | .all => do return .bool ((← values.mapM (requireBool .all)).all id)

/-! ## Outcomes -/

/-- The entries of the evidence. -/
structure Evidence where
  path : String
  aggregate : Option String
  comparator : String
  /-- The bounds and values of the comparator. -/
  expected : List (String × Payload)
  observed : Option Payload
  ageSeconds : Option PyFloat
  reason : Option String
  sample : Option (List Payload)
  sampleTruncated : Bool

structure AssertionOutcome where
  state : CheckState
  value : Scalar
  evidence : Evidence

def floatOrNull (bound : Option PyFloat) : Payload :=
  match bound with
  | some f => .scalar (.num (.float f))
  | none => .scalar .null

def expectedEvidence : Compare → List (String × Payload)
  | .threshold t => [("op", .scalar (.str t.op.text)), ("degraded", floatOrNull t.degraded),
      ("critical", floatOrNull t.critical)]
  | .equals value => [("expected", .scalar value)]
  | .isIn values _ => [("expected", .arr (values.map .scalar))]
  | .bool expect => [("expect", .scalar (.bool expect))]
  | .freshness f => [("max_age_seconds", floatOrNull (some f.maxAgeSeconds)),
      ("degraded_age_seconds", floatOrNull f.degradedAgeSeconds)]

def unknown (evidence : Evidence) (reason : String) (observed : Option Payload) :
    AssertionOutcome :=
  ⟨.unknown, .null, { evidence with
    reason := some reason
    observed := observed <|> evidence.observed <|> some (.scalar (.str reason)) }⟩

def parseTimestamp : Scalar → Except String (Except String Instant)
  | .str s =>
    match py.fromIsoformat s with
    | none => .ok (.error ("unparseable timestamp string " ++ py.reprStr s))
    | some (timestamp, true) => .ok (.ok timestamp)
    | some (_, false) =>
      .ok (.error ("naive timestamp " ++ py.reprStr s ++ " (no timezone offset)"))
  | .bool _ => .ok (.error "boolean is not a timestamp")
  | .num n =>
    match py.fromTimestamp n with
    | some timestamp => .ok (.ok timestamp)
    | none => do return .error ("epoch seconds " ++ (← reprNumber py n) ++ " out of range")
  | .null => .ok (.error "cannot interpret null as a timestamp")

def thresholdState (t : ThresholdCompare) (value : PyNumber) : CheckState :=
  if t.critical.any (violates value t.op) then .critical
  else if t.degraded.any (violates value t.op) then .degraded
  else .ok

def compareThreshold (t : ThresholdCompare) (value : Scalar) (evidence : Evidence) :
    AssertionOutcome :=
  match value with
  | .num (.float f) =>
    if f.isFinite then ⟨thresholdState t (.float f), value, evidence⟩
    else unknown evidence ("threshold comparator requires a finite number, found " ++
      py.reprFloat f) none
  | .num (.int i) => ⟨thresholdState t (.int i), value, evidence⟩
  | other => unknown evidence ("threshold comparator requires a number, found " ++
      typename (.scalar other)) none

/-- `now - timestamp`, in seconds. -/
def age (now timestamp : Instant) : PyFloat := .finite (py.totalSeconds (now - timestamp))

def freshnessState (f : FreshnessCompare) (age : PyFloat) : CheckState :=
  if PyNumber.lt (.float f.maxAgeSeconds) (.float age) then .critical
  else if f.degradedAgeSeconds.any fun bound => PyNumber.lt (.float bound) (.float age) then
    .degraded
  else .ok

def compareFreshness (f : FreshnessCompare) (value : Scalar) (now : Instant)
    (evidence : Evidence) : Except String AssertionOutcome := do
  match ← parseTimestamp py value with
  | .error reason => return unknown evidence reason none
  | .ok timestamp =>
    return ⟨freshnessState f (age py now timestamp), value,
      { evidence with ageSeconds := some (age py now timestamp) }⟩

def stateIf (ok : Bool) : CheckState := if ok then .ok else .critical

def compareValue (compare : Compare) (value : Scalar) (now : Instant) (evidence : Evidence) :
    Except String AssertionOutcome :=
  match compare with
  | .threshold t => .ok (compareThreshold py t value evidence)
  | .equals expected => .ok ⟨stateIf (strictEq value expected), value, evidence⟩
  | .isIn values _ => .ok ⟨stateIf (values.any (strictEq value)), value, evidence⟩
  | .bool expect =>
    match value with
    | .bool b => .ok ⟨stateIf (b = expect), value, evidence⟩
    | other => .ok (unknown evidence ("bool comparator requires a boolean, found " ++
        typename (.scalar other)) none)
  | .freshness f => compareFreshness py f value now evidence

/-- `_EVIDENCE_SAMPLE_LIMIT`. -/
def evidenceSampleLimit : Nat := 5

/-- The first selected rows of an aggregate that is not ok. -/
def withOffenderSample (outcome : AssertionOutcome) (aggregate : Option Aggregate)
    (selected : Payload) : AssertionOutcome :=
  match aggregate, selected with
  | some _, .arr (row :: rows) =>
    if outcome.state = .degraded ∨ outcome.state = .critical then
      { outcome with evidence := { outcome.evidence with
          sample := some ((row :: rows).take evidenceSampleLimit)
          sampleTruncated := evidenceSampleLimit < (row :: rows).length } }
    else outcome
  | _, _ => outcome

/-- The value that is judged, or the outcome without one. -/
def judgedValue (selected : Payload) (aggregate? : Option Aggregate) :
    Except (String × Option Payload) Scalar :=
  match aggregate? with
  | none =>
    match selected with
    | .scalar s => .ok s
    | other => .error ("selection is not a scalar, found " ++ typename other,
        some (.scalar (.str (typename other))))
  | some kind =>
    match selected with
    | .arr values => (aggregate py values kind).mapError (·, none)
    | other => .error ("aggregate '" ++ kind.text ++ "' requires an array, found " ++
        typename other, some (.scalar (.str (typename other))))

/-- `now` has a timezone: it is an instant. -/
def evaluateAssertion (spec : AssertionSpec) (payload : Payload) (now : Instant) :
    Except String AssertionOutcome :=
  let evidence : Evidence := ⟨spec.select.path, spec.select.aggregate.map (·.text),
    spec.compare.type, expectedEvidence spec.compare, none, none, none, none, false⟩
  match parsePath spec.select.path with
  | none => .error "invalid path"
  | some segments =>
    match select payload segments with
    | .error reason => .ok (unknown evidence reason none)
    | .ok selected =>
      match judgedValue py selected spec.select.aggregate with
      | .error (reason, observed) => .ok (unknown evidence reason observed)
      | .ok value => do
        let outcome ← compareValue py spec.compare value now
          { evidence with observed := some (.scalar value) }
        return withOffenderSample outcome spec.select.aggregate selected

end Evaluator

end Meho.Checks.Evaluate
