import Mathlib.Data.List.Basic
import Mathlib.Tactic.IntervalCases
import Mathlib.Tactic.Ring

/- Dates with a time of day, and their ISO 8601 form.

`DateTime` is a date of the Gregorian calendar with a time of day in microseconds
and, where it is aware, its offset from UTC. `isoformat` prints one and
`fromisoformat` reads the forms that have a year, a month and a day or a week date,
a time of day down to the second with a fraction, and an offset.

Results: what was printed reads back (`fromisoformat_isoformat`); instants are
bounded from below (`instant_gt`). -/
namespace Meho.Lib

/-! ## The calendar -/

def isLeap (year : Nat) : Bool := year % 4 = 0 && (year % 100 ≠ 0 || year % 400 = 0)

def daysInMonth (year month : Nat) : Nat :=
  if month = 2 then (if isLeap year then 29 else 28)
  else if month = 4 ∨ month = 6 ∨ month = 9 ∨ month = 11 then 30
  else 31

def daysBeforeYear (year : Nat) : Nat :=
  (year - 1) * 365 + (year - 1) / 4 - (year - 1) / 100 + (year - 1) / 400

def daysBeforeMonth (year month : Nat) : Nat :=
  ((List.range' 1 (month - 1)).map (daysInMonth year)).sum

/-- The number of a day, 1 for the first day of the year 1. -/
def ymd2ord (year month day : Nat) : Nat :=
  daysBeforeYear year + daysBeforeMonth year month + day

structure DateFields where
  year : Nat
  month : Nat
  day : Nat
  hour : Nat
  minute : Nat
  second : Nat
  microsecond : Nat
  /-- The offset from UTC in microseconds. -/
  utcoffset : Option Int
  deriving DecidableEq, Repr

/-- Microseconds of a day. -/
def dayMicros : Int := 86400000000

/-- The fields name a point of time. -/
structure DateFields.Valid (d : DateFields) : Prop where
  year_ge : 1 ≤ d.year
  year_le : d.year ≤ 9999
  month_ge : 1 ≤ d.month
  month_le : d.month ≤ 12
  day_ge : 1 ≤ d.day
  day_le : d.day ≤ daysInMonth d.year d.month
  hour_lt : d.hour < 24
  minute_lt : d.minute < 60
  second_lt : d.second < 60
  microsecond_lt : d.microsecond < 1000000
  offset_gt : ∀ o ∈ d.utcoffset, -dayMicros < o
  offset_lt : ∀ o ∈ d.utcoffset, o < dayMicros

theorem DateFields.valid_iff {d : DateFields} : d.Valid ↔
    (1 ≤ d.year ∧ d.year ≤ 9999) ∧ (1 ≤ d.month ∧ d.month ≤ 12) ∧
      (1 ≤ d.day ∧ d.day ≤ daysInMonth d.year d.month) ∧
      (d.hour < 24 ∧ d.minute < 60 ∧ d.second < 60 ∧ d.microsecond < 1000000) ∧
      (∀ o ∈ d.utcoffset, -dayMicros < o) ∧ ∀ o ∈ d.utcoffset, o < dayMicros :=
  ⟨fun h => ⟨⟨h.1, h.2⟩, ⟨h.3, h.4⟩, ⟨h.5, h.6⟩, ⟨h.7, h.8, h.9, h.10⟩, h.11, h.12⟩,
    fun ⟨⟨h1, h2⟩, ⟨h3, h4⟩, ⟨h5, h6⟩, ⟨h7, h8, h9, h10⟩, h11, h12⟩ =>
      ⟨h1, h2, h3, h4, h5, h6, h7, h8, h9, h10, h11, h12⟩⟩

instance (d : DateFields) : Decidable d.Valid := decidable_of_iff _ DateFields.valid_iff.symm

/-- A date with a time of day. -/
abbrev DateTime := { d : DateFields // d.Valid }

/-- `tzinfo=UTC` for a date without an offset. -/
def DateFields.stampUtc (d : DateFields) : DateFields :=
  { d with utcoffset := some (d.utcoffset.getD 0) }

theorem DateFields.Valid.stampUtc {d : DateFields} (h : d.Valid) : d.stampUtc.Valid := by
  refine ⟨h.1, h.2, h.3, h.4, h.5, h.6, h.7, h.8, h.9, h.10, ?_, ?_⟩
  all_goals
    rintro o ⟨⟩
    cases hoffset : d.utcoffset with
    | none => decide
    | some o =>
      have hlow := h.offset_gt o hoffset
      have hhigh := h.offset_lt o hoffset
      assumption

/-- The date as one of UTC where it has no offset. -/
def DateTime.stampUtc (d : DateTime) : DateTime := ⟨d.val.stampUtc, d.property.stampUtc⟩

theorem DateTime.stampUtc_aware {d : DateTime} (h : d.val.utcoffset.isSome) : d.stampUtc = d := by
  obtain ⟨o, ho⟩ := Option.isSome_iff_exists.mp h
  apply Subtype.ext
  show { d.val with utcoffset := some (d.val.utcoffset.getD 0) } = d.val
  rw [ho]
  show { d.val with utcoffset := some o } = d.val
  rw [← ho]

/-- The instant in microseconds; a date without an offset is one of UTC. -/
def DateTime.instant (d : DateTime) : Int :=
  ((((ymd2ord d.val.year d.val.month d.val.day : Int) * 24 + d.val.hour) * 60 + d.val.minute) * 60
    + d.val.second) * 1000000 + d.val.microsecond - d.val.utcoffset.getD 0

@[simp] theorem DateTime.instant_stampUtc (d : DateTime) : d.stampUtc.instant = d.instant := rfl

theorem DateTime.instant_gt (d : DateTime) : -dayMicros < d.instant := by
  have hoffset : d.val.utcoffset.getD 0 < dayMicros := by
    cases h : d.val.utcoffset with
    | none => decide
    | some o => exact d.property.offset_lt o h
  have : (0 : Int) ≤ (ymd2ord d.val.year d.val.month d.val.day : Int) := Int.natCast_nonneg _
  unfold DateTime.instant
  omega

/-! ## Printing -/

/-- `n` in `k` decimal digits. -/
def decimal : Nat → Nat → List Char
  | 0, _ => []
  | k + 1, n => decimal k (n / 10) ++ [Nat.digitChar (n % 10)]

/-- A fraction as it is printed, nothing for none. -/
def printFraction (micros : Nat) : List Char := if micros = 0 then [] else '.' :: decimal 6 micros

/-- Hours and minutes, with seconds and a fraction where there are some. -/
def formatClock (seconds micros : Nat) : List Char :=
  decimal 2 (seconds / 3600) ++ ':' :: (decimal 2 (seconds / 60 % 60) ++
    if seconds % 60 = 0 ∧ micros = 0 then []
    else ':' :: (decimal 2 (seconds % 60) ++ printFraction micros))

def formatOffset (o : Int) : List Char :=
  (if o < 0 then '-' else '+') :: formatClock (o.natAbs / 1000000) (o.natAbs % 1000000)

def formatDate (year month day : Nat) : List Char :=
  decimal 4 year ++ '-' :: (decimal 2 month ++ '-' :: decimal 2 day)

def formatTime (hour minute second micros : Nat) : List Char :=
  decimal 2 hour ++ ':' :: (decimal 2 minute ++ ':' :: (decimal 2 second ++ printFraction micros))

def formatZone : Option Int → List Char
  | some o => formatOffset o
  | none => []

def DateFields.isoformat (d : DateFields) : List Char :=
  formatDate d.year d.month d.day ++
    'T' :: (formatTime d.hour d.minute d.second d.microsecond ++ formatZone d.utcoffset)

def DateTime.isoformat (d : DateTime) : String := String.ofList d.val.isoformat

/-! ## Reading -/

def digitVal (c : Char) : Option Nat := if '0' ≤ c ∧ c ≤ '9' then some (c.toNat - 48) else none

/-- The number that a text of digits stands for. -/
def readDigits (text : List Char) : Option Nat :=
  text.foldl (fun n c => n.bind fun n => (digitVal c).map (n * 10 + ·)) (some 0)

/-- The day of a number, looked for in the years around the given one. -/
def ord2ymd (ord around : Nat) : Option (Nat × Nat × Nat) :=
  let days : List (Nat × Nat × Nat) := [around - 1, around, around + 1].flatMap fun year =>
    (List.range' 1 12).flatMap fun month =>
      (List.range' 1 (daysInMonth year month)).map fun day => (year, month, day)
  days.find? fun x => ymd2ord x.1 x.2.1 x.2.2 = ord

/-- The day of a week date. -/
def isoweekToGregorian (year week day : Nat) : Option (Nat × Nat × Nat) :=
  let firstday := ymd2ord year 1 1
  let firstweekday := (firstday + 6) % 7
  let week1monday := firstday - firstweekday + (if firstweekday > 3 then 7 else 0)
  let long : Bool := firstday % 7 = 4 || (firstday % 7 = 3 && isLeap year)
  if 0 < year ∧ (0 < week ∧ (week < 53 ∨ week = 53 ∧ long)) ∧ 0 < day ∧ day < 8 then
    ord2ymd (week1monday + (week - 1) * 7 + (day - 1)) year
  else none

def readYmd (year month day : List Char) : Option (Nat × Nat × Nat) :=
  match readDigits year, readDigits month, readDigits day with
  | some year, some month, some day => some (year, month, day)
  | _, _, _ => none

def readWeek (year week day : List Char) : Option (Nat × Nat × Nat) :=
  match readYmd year week day with
  | some (year, week, day) => isoweekToGregorian year week day
  | none => none

def isDigit (c : Char) : Bool := (digitVal c).isSome

/-- The date that a text starts with, and what is behind it. After the week of a week date
it is the digits that follow which tell a day from a separator. -/
def readDate : List Char → Option ((Nat × Nat × Nat) × List Char)
  | y1 :: y2 :: y3 :: y4 :: '-' :: 'W' :: w1 :: w2 :: rest =>
    match rest with
    | ['-'] => none
    | '-' :: d :: rest' =>
      if (rest'.head?.map isDigit).getD false then
        (readWeek [y1, y2, y3, y4] [w1, w2] ['1']).map (·, rest)
      else (readWeek [y1, y2, y3, y4] [w1, w2] [d]).map (·, rest')
    | _ => (readWeek [y1, y2, y3, y4] [w1, w2] ['1']).map (·, rest)
  | y1 :: y2 :: y3 :: y4 :: '-' :: m1 :: m2 :: '-' :: d1 :: d2 :: rest =>
    (readYmd [y1, y2, y3, y4] [m1, m2] [d1, d2]).map (·, rest)
  | y1 :: y2 :: y3 :: y4 :: 'W' :: w1 :: w2 :: rest =>
    let digits := (rest.takeWhile isDigit).length
    if digits = 1 ∨ (1 < digits ∧ digits % 2 = 0) then
      (readWeek [y1, y2, y3, y4] [w1, w2] (rest.take 1)).map (·, rest.drop 1)
    else (readWeek [y1, y2, y3, y4] [w1, w2] ['1']).map (·, rest)
  | y1 :: y2 :: y3 :: y4 :: m1 :: m2 :: d1 :: d2 :: rest =>
    (readYmd [y1, y2, y3, y4] [m1, m2] [d1, d2]).map (·, rest)
  | _ => none

/-- A fraction of a second in microseconds: digits beyond the sixth are dropped. -/
def readFraction : List Char → Option Nat
  | [] => some 0
  | mark :: digits =>
    if (mark = '.' ∨ mark = ',') ∧ digits ≠ [] ∧ digits.all isDigit then
      readDigits (digits.take 6 ++ List.replicate (6 - digits.length) '0')
    else none

/-- Hours, minutes, seconds and microseconds. -/
abbrev Clock := Nat × Nat × Nat × Nat

def mkClock (hour minute second fraction : List Char) : Option Clock :=
  match readDigits hour, readDigits minute, readDigits second, readFraction fraction with
  | some hour, some minute, some second, some micros => some (hour, minute, second, micros)
  | _, _, _, _ => none

/-- A time of day, with or without its colons. -/
def readClock : List Char → Option Clock
  | [a, b] => mkClock [a, b] [] [] []
  | [a, b, ':', c, d] => mkClock [a, b] [c, d] [] []
  | a :: b :: ':' :: c :: d :: ':' :: e :: f :: rest => mkClock [a, b] [c, d] [e, f] rest
  | [a, b, c, d] => mkClock [a, b] [c, d] [] []
  | a :: b :: c :: d :: e :: f :: rest => mkClock [a, b] [c, d] [e, f] rest
  | _ => none

def Clock.micros : Clock → Nat
  | (hour, minute, second, micros) => ((hour * 60 + minute) * 60 + second) * 1000000 + micros

/-- What is behind a time of day: nothing, `Z`, or a signed offset. -/
def readOffset : List Char → Option (Option Int)
  | [] => some none
  | ['Z'] => some (some 0)
  | '+' :: rest => (readClock rest).map fun c => some (c.micros : Int)
  | '-' :: rest => (readClock rest).map fun c => some (-(c.micros : Int))
  | _ => none

def isZoneMark (c : Char) : Bool := c = '+' || c = '-' || c = 'Z'

def fromFields (d : DateFields) : Option DateTime := if h : d.Valid then some ⟨d, h⟩ else none

def fromChars (text : List Char) : Option DateTime :=
  match readDate text with
  | none => none
  | some ((year, month, day), rest) =>
    if rest.length ≤ 1 then fromFields ⟨year, month, day, 0, 0, 0, 0, none⟩
    else
      let time := rest.drop 1
      match readClock (time.takeWhile (!isZoneMark ·)), readOffset (time.dropWhile (!isZoneMark ·)) with
      | some (hour, minute, second, micros), some offset =>
        fromFields ⟨year, month, day, hour, minute, second, micros, offset⟩
      | _, _ => none

def fromisoformat (text : String) : Option DateTime := fromChars text.toList

/-! ## Reading what was printed -/

@[simp] theorem decimal_length (k n : Nat) : (decimal k n).length = k := by
  induction k generalizing n with
  | zero => rfl
  | succ k ih => rw [decimal, List.length_append, ih, List.length_singleton]

theorem digitVal_digitChar {n : Nat} (h : n < 10) : digitVal (Nat.digitChar n) = some n := by
  interval_cases n <;> rfl

theorem isDigit_decimal {k n : Nat} : ∀ c ∈ decimal k n, isDigit c := by
  induction k generalizing n with
  | zero => exact fun c hc => by cases hc
  | succ k ih =>
    intro c hc
    rw [decimal, List.mem_append, List.mem_singleton] at hc
    obtain hc | rfl := hc
    · exact ih c hc
    · rw [isDigit, digitVal_digitChar (Nat.mod_lt n (by decide))]
      rfl

/-- A digit is neither a sign nor `Z`, so a time of day ends before its offset. -/
theorem not_isZoneMark_of_isDigit {c : Char} (h : isDigit c) : isZoneMark c = false := by
  by_contra hmark
  rw [Bool.not_eq_false, isZoneMark] at hmark
  simp only [Bool.or_eq_true, decide_eq_true_eq] at hmark
  obtain (rfl | rfl) | rfl := hmark
  all_goals exact absurd h (by decide)

theorem readDigits_decimal (k n : Nat) : readDigits (decimal k n) = some (n % 10 ^ k) := by
  induction k generalizing n with
  | zero => simp [decimal, readDigits, Nat.mod_one]
  | succ k ih =>
    have hdigit := digitVal_digitChar (Nat.mod_lt n (show 0 < 10 by decide))
    rw [readDigits, decimal, List.foldl_append, ← readDigits, ih]
    simp only [List.foldl_cons, List.foldl_nil, Option.bind_some, hdigit, Option.map_some]
    have hmod := Nat.mod_mul (x := n) (a := 10) (b := 10 ^ k)
    rw [pow_succ, mul_comm (10 ^ k) 10, hmod]
    congr 1
    ring

/-- Two digits of a number below a hundred. -/
theorem readDigits_two {n : Nat} (h : n < 100) : readDigits (decimal 2 n) = some n := by
  rw [readDigits_decimal]
  exact congrArg some (Nat.mod_eq_of_lt h)

theorem decimal_two (n : Nat) :
    decimal 2 n = [Nat.digitChar (n / 10 % 10), Nat.digitChar (n % 10)] := rfl

theorem decimal_four (n : Nat) :
    decimal 4 n = [Nat.digitChar (n / 10 / 10 / 10 % 10), Nat.digitChar (n / 10 / 10 % 10),
      Nat.digitChar (n / 10 % 10), Nat.digitChar (n % 10)] := rfl

theorem readFraction_print {micros : Nat} (h : micros < 1000000) :
    readFraction (printFraction micros) = some micros := by
  unfold printFraction
  split
  next hzero => exact congrArg some hzero.symm
  next =>
    have hdigits : (decimal 6 micros).all isDigit = true := List.all_eq_true.mpr isDigit_decimal
    have hsome : decimal 6 micros ≠ [] := List.ne_nil_of_length_pos (by simp)
    rw [readFraction, if_pos ⟨.inl rfl, hsome, hdigits⟩]
    rw [List.take_of_length_le (by simp), decimal_length, Nat.sub_self, List.replicate_zero,
      List.append_nil, readDigits_decimal]
    exact congrArg some (Nat.mod_eq_of_lt h)

/-- A time of day with its seconds. -/
theorem readClock_formatTime {hour minute second micros : Nat} (hh : hour < 100) (hm : minute < 100)
    (hs : second < 100) (hf : micros < 1000000) :
    readClock (formatTime hour minute second micros) = some (hour, minute, second, micros) := by
  have hread : mkClock (decimal 2 hour) (decimal 2 minute) (decimal 2 second)
      (printFraction micros) = some (hour, minute, second, micros) := by
    rw [mkClock, readDigits_two hh, readDigits_two hm, readDigits_two hs, readFraction_print hf]
  rw [← hread, formatTime, decimal_two, decimal_two, decimal_two]
  simp only [List.cons_append, List.nil_append, readClock]

/-- A time of day that stops at the minutes. -/
theorem readClock_short {hour minute : Nat} (hh : hour < 100) (hm : minute < 100) :
    readClock (decimal 2 hour ++ ':' :: decimal 2 minute) = some (hour, minute, 0, 0) := by
  have hread : mkClock (decimal 2 hour) (decimal 2 minute) [] [] = some (hour, minute, 0, 0) := by
    rw [mkClock, readDigits_two hh, readDigits_two hm]
    rfl
  rw [← hread, decimal_two, decimal_two]
  simp only [List.cons_append, List.nil_append, readClock]

theorem readClock_formatClock {seconds micros : Nat} (hs : seconds < 86400)
    (hf : micros < 1000000) :
    readClock (formatClock seconds micros) =
      some (seconds / 3600, seconds / 60 % 60, seconds % 60, micros) := by
  have hhour : seconds / 3600 < 100 := by omega
  have hminute : seconds / 60 % 60 < 100 := by omega
  unfold formatClock
  split
  next hshort =>
    rw [List.append_nil, readClock_short hhour hminute, hshort.1, hshort.2]
  next =>
    have hsecond : seconds % 60 < 100 := by omega
    exact readClock_formatTime hhour hminute hsecond hf

theorem micros_clock (n : Nat) : Clock.micros
    (n / 1000000 / 3600, n / 1000000 / 60 % 60, n / 1000000 % 60, n % 1000000) = n := by
  show ((n / 1000000 / 3600 * 60 + n / 1000000 / 60 % 60) * 60 + n / 1000000 % 60) * 1000000
    + n % 1000000 = n
  omega

/-- A printed zone reads back. -/
theorem readOffset_formatZone {zone : Option Int} (hlow : ∀ o ∈ zone, -dayMicros < o)
    (hhigh : ∀ o ∈ zone, o < dayMicros) : readOffset (formatZone zone) = some zone := by
  cases zone with
  | none => rfl
  | some o =>
    have hlow : -86400000000 < o := hlow o rfl
    have hhigh : o < 86400000000 := hhigh o rfl
    have hread : readClock (formatClock (o.natAbs / 1000000) (o.natAbs % 1000000)) = some _ :=
      readClock_formatClock (by omega) (by omega)
    rw [formatZone, formatOffset]
    split
    next hneg =>
      rw [readOffset, hread, Option.map_some, micros_clock]
      exact congrArg (fun o => some (some o)) (show -(o.natAbs : Int) = o by omega)
    next hpos =>
      rw [readOffset, hread, Option.map_some, micros_clock]
      exact congrArg (fun o => some (some o)) (show (o.natAbs : Int) = o by omega)

/-- No character of a time of day begins an offset. -/
theorem formatTime_no_mark (hour minute second micros : Nat) :
    ∀ c ∈ formatTime hour minute second micros, (!isZoneMark c) = true := by
  have hdigit : ∀ {k n : Nat}, ∀ c ∈ decimal k n, isZoneMark c = false := fun c hc =>
    not_isZoneMark_of_isDigit (isDigit_decimal c hc)
  have hfraction : ∀ c ∈ printFraction micros, isZoneMark c = false := by
    intro c hc
    unfold printFraction at hc
    split at hc
    · cases hc
    · obtain rfl | hc := List.mem_cons.mp hc
      · rfl
      · exact hdigit c hc
  intro c hc
  simp only [formatTime, List.mem_append, List.mem_cons] at hc
  rw [Bool.not_eq_true']
  obtain hc | rfl | hc | rfl | hc | hc := hc
  · exact hdigit c hc
  · rfl
  · exact hdigit c hc
  · rfl
  · exact hdigit c hc
  · exact hfraction c hc

/-- A zone is empty or begins with a sign. -/
theorem formatZone_mark (zone : Option Int) :
    formatZone zone = [] ∨ ∃ c rest, formatZone zone = c :: rest ∧ isZoneMark c = true := by
  cases zone with
  | none => exact .inl rfl
  | some o =>
    refine .inr ⟨_, _, rfl, ?_⟩
    split <;> rfl

theorem split_time_zone {time zone : List Char} (htime : ∀ c ∈ time, (!isZoneMark c) = true)
    (hzone : zone = [] ∨ ∃ c rest, zone = c :: rest ∧ isZoneMark c = true) :
    (time ++ zone).takeWhile (!isZoneMark ·) = time ∧
      (time ++ zone).dropWhile (!isZoneMark ·) = zone := by
  rw [List.takeWhile_append_of_pos htime, List.dropWhile_append_of_pos htime]
  obtain rfl | ⟨c, rest, rfl, hc⟩ := hzone
  · exact ⟨List.append_nil time, rfl⟩
  · rw [List.takeWhile_cons_of_neg (by simp [hc]), List.dropWhile_cons_of_neg (by simp [hc])]
    exact ⟨List.append_nil time, rfl⟩

theorem readDate_formatDate {year month day : Nat} (hy : year < 10000) (hm : month < 100)
    (hd : day < 100) (rest : List Char) :
    readDate (formatDate year month day ++ rest) = some ((year, month, day), rest) := by
  have hread : readYmd (decimal 4 year) (decimal 2 month) (decimal 2 day) =
      some (year, month, day) := by
    have hyear : readDigits (decimal 4 year) = some year := by
      rw [readDigits_decimal]
      exact congrArg some (Nat.mod_eq_of_lt hy)
    rw [readYmd, hyear, readDigits_two hm, readDigits_two hd]
  have hW : Nat.digitChar (month / 10 % 10) ≠ 'W' := by
    intro heq
    have hdigit := digitVal_digitChar (Nat.mod_lt (month / 10) (show 0 < 10 by decide))
    rw [heq] at hdigit
    cases hdigit
  rw [decimal_four, decimal_two, decimal_two] at hread
  rw [formatDate, decimal_four, decimal_two, decimal_two]
  simp only [List.cons_append, List.nil_append]
  rw [readDate]
  · rw [hread]
    rfl
  · exact hW

/-- What was printed reads back. -/
theorem fromisoformat_isoformat (d : DateTime) : fromisoformat d.isoformat = some d := by
  obtain ⟨d, hd⟩ := d
  have hmonth : d.month < 100 := Nat.lt_of_le_of_lt hd.month_le (by decide)
  have hday : d.day < 100 := by
    refine Nat.lt_of_le_of_lt hd.day_le ?_
    unfold daysInMonth
    split <;> [split; split] <;> decide
  have hdate := readDate_formatDate (Nat.lt_succ_of_le hd.year_le) hmonth hday
    ('T' :: (formatTime d.hour d.minute d.second d.microsecond ++ formatZone d.utcoffset))
  have hhour : d.hour < 100 := lt_trans hd.hour_lt (by decide)
  have hminute : d.minute < 100 := lt_trans hd.minute_lt (by decide)
  have hsecond : d.second < 100 := lt_trans hd.second_lt (by decide)
  have hlong : ¬('T' :: (formatTime d.hour d.minute d.second d.microsecond ++
      formatZone d.utcoffset)).length ≤ 1 := by
    simp [formatTime]
  obtain ⟨htime, hzone⟩ := split_time_zone
    (formatTime_no_mark d.hour d.minute d.second d.microsecond) (formatZone_mark d.utcoffset)
  rw [fromisoformat, DateTime.isoformat, String.toList_ofList, fromChars, DateFields.isoformat, hdate]
  simp only [if_neg hlong, List.drop_one, List.tail_cons, htime, hzone]
  rw [readClock_formatTime hhour hminute hsecond hd.microsecond_lt,
    readOffset_formatZone hd.offset_gt hd.offset_lt]
  exact dif_pos hd

end Meho.Lib
