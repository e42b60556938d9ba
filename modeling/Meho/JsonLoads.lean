import Meho.Json
import Meho.Lib.JsonText

/- Reading JSON text (`json.loads`) and printing the flat objects that tokens hold
(`json.dumps` without blanks).

The reader takes the grammar of the standard with Python's `NaN` and `Infinity`; a key
that stands twice keeps its last value. A lone surrogate becomes the replacement
character. `fuel` bounds the nesting, and the length of the text is enough.

Result: a printed object of strings without escapes and of integers reads back
(`loads_dumpsFlat`). -/
namespace Meho
open Lib

/-! ## Strings -/

def hexDigit (c : Char) : Option Nat :=
  if '0' ≤ c ∧ c ≤ '9' then some (c.toNat - 48)
  else if 'a' ≤ c ∧ c ≤ 'f' then some (c.toNat - 87)
  else if 'A' ≤ c ∧ c ≤ 'F' then some (c.toNat - 55)
  else none

/-- Four hex digits. -/
def hexUnit : List Char → Option (Nat × List Char)
  | a :: b :: c :: d :: rest =>
    match hexDigit a, hexDigit b, hexDigit c, hexDigit d with
    | some a, some b, some c, some d => some (((a * 16 + b) * 16 + c) * 16 + d, rest)
    | _, _, _, _ => none
  | _ => none

def isHigh (unit : Nat) : Bool := 0xd800 ≤ unit && unit ≤ 0xdbff

def isLow (unit : Nat) : Bool := 0xdc00 ≤ unit && unit ≤ 0xdfff

def unitChar (unit : Nat) : Char := if isHigh unit || isLow unit then '\uFFFD' else Char.ofNat unit

/-- What follows a backslash and `u`. -/
def loadUnicode (text : List Char) : Option (Char × List Char) :=
  match hexUnit text with
  | none => none
  | some (high, rest) =>
    match rest with
    | '\\' :: 'u' :: rest' =>
      match isHigh high, hexUnit rest' with
      | true, some (low, rest'') =>
        if isLow low then
          some (Char.ofNat (0x10000 + (high - 0xd800) * 0x400 + (low - 0xdc00)), rest'')
        else some (unitChar high, rest)
      | true, none => none
      | false, _ => some (unitChar high, rest)
    | _ => some (unitChar high, rest)

/-- What follows a backslash. -/
def loadEscape : List Char → Option (Char × List Char)
  | 'u' :: rest => loadUnicode rest
  | '"' :: rest => some ('"', rest)
  | '\\' :: rest => some ('\\', rest)
  | '/' :: rest => some ('/', rest)
  | 'b' :: rest => some ('\x08', rest)
  | 'f' :: rest => some ('\x0c', rest)
  | 'n' :: rest => some ('\n', rest)
  | 'r' :: rest => some ('\r', rest)
  | 't' :: rest => some ('\t', rest)
  | _ => none

/-- The text of a literal up to its closing quote, and what is behind it. -/
def loadString : Nat → List Char → Option (List Char × List Char)
  | _, '"' :: rest => some ([], rest)
  | fuel + 1, '\\' :: rest =>
    match loadEscape rest with
    | some (c, rest) => (loadString fuel rest).map fun x => (c :: x.1, x.2)
    | none => none
  | fuel + 1, c :: rest =>
    if c.toNat < 0x20 then none else (loadString fuel rest).map fun x => (c :: x.1, x.2)
  | _, _ => none

/-! ## Numbers -/

/-- The digits that a text starts with, at least one. -/
def loadDigits (text : List Char) : Option (List Char × List Char) :=
  match text.takeWhile Char.isDigit with
  | [] => none
  | digits => some (digits, text.dropWhile Char.isDigit)

def loadInt : List Char → Option (List Char × List Char)
  | '0' :: rest => some (['0'], rest)
  | text => loadDigits text

/-- A fraction, empty where there is none. -/
def loadFrac (text : List Char) : List Char × List Char :=
  match text with
  | '.' :: rest =>
    match loadDigits rest with
    | some (digits, rest) => ('.' :: digits, rest)
    | none => ([], text)
  | _ => ([], text)

def loadExp (text : List Char) : List Char × List Char :=
  match text with
  | e :: rest =>
    if e = 'e' ∨ e = 'E' then
      let sign := rest.takeWhile fun c => c = '+' || c = '-'
      match loadDigits (rest.drop sign.length) with
      | some (digits, rest) => if sign.length ≤ 1 then (e :: sign ++ digits, rest) else ([], text)
      | none => ([], text)
    else ([], text)
  | [] => ([], text)

def loadNumber (text : List Char) : Option (Json × List Char) :=
  let minus := text.head? = some '-'
  match loadInt (if minus then text.tail else text) with
  | none => none
  | some (digits, rest) =>
    let (frac, rest) := loadFrac rest
    let (exp, rest) := loadExp rest
    let n : Int := Nat.ofDigitChars 10 digits 0
    if frac = [] ∧ exp = [] then some (.int (if minus then -n else n), rest)
    else some (.float (String.ofList ((if minus then ['-'] else []) ++ digits ++ frac ++ exp)), rest)

/-! ## Values -/

def skipBlanks (text : List Char) : List Char :=
  text.dropWhile fun c => c = ' ' || c = '\t' || c = '\n' || c = '\r'

/-- The words, each with its value. -/
def jsonWords : List (List Char × Json) :=
  [("null".toList, .null), ("true".toList, .bool true), ("false".toList, .bool false),
    ("NaN".toList, .float "nan"), ("Infinity".toList, .float "inf"),
    ("-Infinity".toList, .float "-inf")]

def loadWord (text : List Char) : Option (Json × List Char) :=
  (jsonWords.find? fun w => w.1.isPrefixOf text).map fun w => (w.2, text.drop w.1.length)

mutual

/-- The value that a text starts with, and what is behind it. -/
def loadValue : Nat → List Char → Option (Json × List Char)
  | 0, _ => none
  | fuel + 1, text =>
    match text with
    | '"' :: rest =>
      (loadString rest.length rest).map fun x => (.str (String.ofList x.1), x.2)
    | '\x7b' :: rest =>
      match skipBlanks rest with
      | '\x7d' :: rest => some (.obj [], rest)
      | rest => (loadMembers fuel rest).map fun x => (.obj (dictUpdate [] x.1), x.2)
    | '[' :: rest =>
      match skipBlanks rest with
      | ']' :: rest => some (.arr [], rest)
      | rest => (loadItems fuel rest).map fun x => (.arr x.1, x.2)
    | _ => (loadWord text).or (loadNumber text)

/-- The members of an object up to its closing brace. -/
def loadMembers : Nat → List Char → Option (Dict × List Char)
  | 0, _ => none
  | fuel + 1, text =>
    match text with
    | '"' :: rest =>
      match loadString rest.length rest with
      | none => none
      | some (key, rest) =>
        match skipBlanks rest with
        | ':' :: rest =>
          match loadValue fuel (skipBlanks rest) with
          | none => none
          | some (value, rest) =>
            match skipBlanks rest with
            | '\x7d' :: rest => some ([(String.ofList key, value)], rest)
            | ',' :: rest => (loadMembers fuel (skipBlanks rest)).map fun x =>
                ((String.ofList key, value) :: x.1, x.2)
            | _ => none
        | _ => none
    | _ => none

/-- The items of an array up to its closing bracket. -/
def loadItems : Nat → List Char → Option (List Json × List Char)
  | 0, _ => none
  | fuel + 1, text =>
    match loadValue fuel text with
    | none => none
    | some (value, rest) =>
      match skipBlanks rest with
      | ']' :: rest => some ([value], rest)
      | ',' :: rest => (loadItems fuel (skipBlanks rest)).map fun x => (value :: x.1, x.2)
      | _ => none

end

/-- `json.loads(text)`, `none` where it is not valid JSON. -/
def loads (text : String) : Option Json :=
  match loadValue (text.toList.length + 1) (skipBlanks text.toList) with
  | some (value, rest) => if skipBlanks rest = [] then some value else none
  | none => none

/-! ## Printing flat objects -/

/-- A value of a flat object. -/
inductive Flat where
  | str (s : String)
  | int (i : Int)

def Flat.json : Flat → Json
  | .str s => .str s
  | .int i => .int i

def Flat.dumps : Flat → List Char
  | .str s => jsonString s
  | .int (.ofNat n) => Nat.toDigits 10 n
  | .int (.negSucc n) => '-' :: Nat.toDigits 10 (n + 1)

def dumpsMember (m : String × Flat) : List Char := jsonString m.1 ++ ':' :: m.2.dumps

def dumpsMembers : List (String × Flat) → List Char
  | [] => []
  | [m] => dumpsMember m
  | m :: ms => dumpsMember m ++ ',' :: dumpsMembers ms

/-- `json.dumps(fields, separators=(",", ":"))`. -/
def dumpsFlat (fields : List (String × Flat)) : List Char :=
  '\x7b' :: (dumpsMembers fields ++ ['\x7d'])

/-! ## Reading what was printed -/

/-- A character that a literal holds as it is. -/
def plainChar (c : Char) : Bool := 0x20 ≤ c.toNat && c.toNat ≤ 0x7e && c ≠ '"' && c ≠ '\\'

def plainText (s : String) : Prop := ∀ c ∈ s.toList, plainChar c

variable {c : Char}

theorem escapeChar_plain (h : plainChar c) : escapeChar c = [c] := by
  simp only [plainChar, Bool.and_eq_true, decide_eq_true_eq] at h
  obtain ⟨⟨⟨hlow, hhigh⟩, hquote⟩, hslash⟩ := h
  have hshort : shortEscape c = none := by
    unfold shortEscape
    repeat' split
    any_goals rfl
    all_goals
      rename_i heq
      subst heq
      contradiction
  rw [escapeChar, hshort]
  exact if_pos ⟨hlow, hhigh⟩

theorem jsonString_plain {s : String} (h : plainText s) (rest : List Char) :
    jsonString s ++ rest = '"' :: (s.toList ++ '"' :: rest) := by
  have hbody : s.toList.flatMap escapeChar = s.toList := by
    rw [List.flatMap_congr (fun c hc => escapeChar_plain (h c hc)), List.flatMap_singleton']
  rw [jsonString, hbody, List.cons_append, List.append_assoc]
  rfl

theorem loadString_plain {text : List Char} (h : ∀ c ∈ text, plainChar c) {fuel : Nat}
    (hfuel : text.length ≤ fuel) (rest : List Char) :
    loadString fuel (text ++ '"' :: rest) = some (text, rest) := by
  induction text generalizing fuel with
  | nil => cases fuel <;> rfl
  | cons c text ih =>
    obtain ⟨fuel, rfl⟩ := Nat.exists_eq_succ_of_ne_zero
      (Nat.ne_of_gt (Nat.lt_of_lt_of_le (Nat.succ_pos text.length) hfuel))
    have hc := h c List.mem_cons_self
    simp only [plainChar, Bool.and_eq_true, decide_eq_true_eq] at hc
    have hrest := ih (fun c hc => h c (List.mem_cons_of_mem _ hc)) (Nat.le_of_succ_le_succ hfuel)
    rw [List.cons_append, loadString, if_neg (Nat.not_lt.mpr hc.1.1.1), hrest]
    · rfl
    · exact hc.1.2
    · exact hc.2

/-- A literal reads back, whatever is behind it. -/
theorem loadString_jsonString {s : String} (h : plainText s) (rest : List Char) :
    loadString (s.toList ++ '"' :: rest).length (s.toList ++ '"' :: rest) =
      some (s.toList, rest) :=
  loadString_plain h (by rw [List.length_append]; exact Nat.le_add_right _ _) rest

/-- What may follow a member. -/
def endsMember : List Char → Bool
  | c :: _ => c = ',' || c = '\x7d'
  | [] => false

/-- What may follow a value. -/
def endsValue : List Char → Bool
  | c :: _ => c = ',' || c = '\x7d' || c = ']'
  | [] => true

variable {rest : List Char}

theorem endsValue_of_endsMember (h : endsMember rest) : endsValue rest := by
  cases rest with
  | nil => rfl
  | cons c r =>
    simp only [endsMember, Bool.or_eq_true, decide_eq_true_eq] at h
    obtain rfl | rfl := h <;> rfl

theorem endsValue_cases (h : endsValue rest) :
    rest = [] ∨ ∃ r, rest = ',' :: r ∨ rest = '\x7d' :: r ∨ rest = ']' :: r := by
  cases rest with
  | nil => exact .inl rfl
  | cons c r =>
    simp only [endsValue, Bool.or_eq_true, decide_eq_true_eq] at h
    obtain (rfl | rfl) | rfl := h
    · exact .inr ⟨r, .inl rfl⟩
    · exact .inr ⟨r, .inr (.inl rfl)⟩
    · exact .inr ⟨r, .inr (.inr rfl)⟩

theorem loadDigits_toDigits (n : Nat) (h : endsValue rest) :
    loadDigits (Nat.toDigits 10 n ++ rest) = some (Nat.toDigits 10 n, rest) := by
  have hall : ∀ c ∈ Nat.toDigits 10 n, c.isDigit = true := fun c hc =>
    Nat.isDigit_of_mem_toDigits (by decide) (by decide) hc
  have hstop : rest.takeWhile Char.isDigit = [] ∧ rest.dropWhile Char.isDigit = rest := by
    obtain rfl | ⟨r, rfl | rfl | rfl⟩ := endsValue_cases h <;> exact ⟨rfl, rfl⟩
  rw [loadDigits, List.takeWhile_append_of_pos hall, List.dropWhile_append_of_pos hall, hstop.1,
    hstop.2, List.append_nil]
  cases hdigits : Nat.toDigits 10 n with
  | nil => exact absurd hdigits Nat.toDigits_ne_nil
  | cons c cs => rfl

/-- The digits of a number do not start with a zero, but for zero itself. -/
theorem toDigits_head (n : Nat) : Nat.toDigits 10 n = ['0'] ∨
    ∃ c cs, Nat.toDigits 10 n = c :: cs ∧ c ≠ '0' ∧ c.isDigit := by
  induction n using Nat.strongRecOn with
  | ind n ih =>
    by_cases hlt : n < 10
    · rw [Nat.toDigits_of_lt_base hlt]
      by_cases hzero : n = 0
      · subst hzero
        exact .inl rfl
      · right
        refine ⟨n.digitChar, [], rfl, ?_, ?_⟩
        all_goals interval_cases n
        all_goals first | exact absurd rfl hzero | decide
    · rw [Nat.toDigits_of_base_le (by decide) (Nat.not_lt.mp hlt)]
      obtain hzero | ⟨c, cs, heq, hc⟩ := ih (n / 10) (by omega)
      · have hpos : 0 < n / 10 := by omega
        have hvalue := congrArg (Nat.ofDigitChars 10 · 0) hzero
        simp only [Nat.ofDigitChars_ten_toDigits] at hvalue
        exact absurd hvalue (Nat.ne_of_gt hpos)
      · rw [heq]
        exact .inr ⟨c, _, rfl, hc⟩

theorem loadInt_toDigits (n : Nat) (h : endsValue rest) :
    loadInt (Nat.toDigits 10 n ++ rest) = some (Nat.toDigits 10 n, rest) := by
  obtain hzero | ⟨c, cs, heq, hc, -⟩ := toDigits_head n
  · rw [hzero]
    rfl
  · rw [← loadDigits_toDigits n h, heq, List.cons_append, loadInt]
    intro r hr
    exact hc (List.cons.inj hr).1

theorem loadFrac_end (h : endsValue rest) : loadFrac rest = ([], rest) := by
  obtain rfl | ⟨r, rfl | rfl | rfl⟩ := endsValue_cases h <;> rfl

theorem loadExp_end (h : endsValue rest) : loadExp rest = ([], rest) := by
  obtain rfl | ⟨r, rfl | rfl | rfl⟩ := endsValue_cases h <;> rfl

theorem loadNumber_toDigits (n : Nat) (h : endsValue rest) :
    loadNumber (Nat.toDigits 10 n ++ rest) = some (.int n, rest) := by
  have hplus : (Nat.toDigits 10 n ++ rest).head? ≠ some '-' := by
    obtain hzero | ⟨c, cs, heq, -, hc⟩ := toDigits_head n
    · rw [hzero]
      rintro ⟨⟩
    · rw [heq]
      rintro ⟨⟩
      cases hc
  simp only [loadNumber, hplus, if_false, loadInt_toDigits n h,
    loadFrac_end h, loadExp_end h, and_self, if_true, Nat.ofDigitChars_ten_toDigits]

theorem loadNumber_minus (n : Nat) (h : endsValue rest) :
    loadNumber ('-' :: (Nat.toDigits 10 n ++ rest)) = some (.int (-n), rest) := by
  simp only [loadNumber, List.head?_cons, if_true, List.tail_cons,
    loadInt_toDigits n h, loadFrac_end h, loadExp_end h, and_self, Nat.ofDigitChars_ten_toDigits]

def Flat.plain : Flat → Prop
  | .str s => plainText s
  | .int _ => True

theorem toDigits_cons (n : Nat) : ∃ c cs, Nat.toDigits 10 n = c :: cs ∧ c.isDigit = true := by
  obtain hzero | ⟨c, cs, heq, -, hc⟩ := toDigits_head n
  · exact ⟨'0', [], hzero, rfl⟩
  · exact ⟨c, cs, heq, hc⟩

theorem loadWord_digit (hc : c.isDigit = true) (rest : List Char) :
    loadWord (c :: rest) = none ∧ loadWord ('-' :: c :: rest) = none := by
  have hne : ∀ d : Char, d.isDigit = false → (d == c) = false := by
    intro d hd
    refine beq_false_of_ne ?_
    rintro rfl
    rw [hc] at hd
    cases hd
  simp [loadWord, jsonWords, List.find?, List.isPrefixOf, hne 'n' rfl, hne 't' rfl, hne 'f' rfl,
    hne 'N' rfl, hne 'I' rfl, hne '-' rfl]

/-- A text that starts with no mark is a word or a number. -/
theorem loadValue_number {c : Char} (hc : c ≠ '"' ∧ c ≠ '\x7b' ∧ c ≠ '[') (fuel : Nat)
    (text : List Char) :
    loadValue (fuel + 1) (c :: text) = (loadWord (c :: text)).or (loadNumber (c :: text)) := by
  rw [loadValue]
  all_goals
    rintro rest ⟨⟩
    obtain ⟨hquote, hbrace, hbracket⟩ := hc
    contradiction

theorem loadValue_dumps {v : Flat} (hv : v.plain) (h : endsValue rest) (fuel : Nat) :
    loadValue (fuel + 1) (v.dumps ++ rest) = some (v.json, rest) := by
  cases v with
  | str s =>
    rw [Flat.dumps, jsonString_plain hv, loadValue]
    simp only [loadString_jsonString hv, Option.map_some, String.ofList_toList, Flat.json]
  | int i =>
    cases i with
    | ofNat n =>
      have hnumber := loadNumber_toDigits n h
      obtain ⟨c, cs, heq, hc⟩ := toDigits_cons n
      have hmark : c ≠ '"' ∧ c ≠ '\x7b' ∧ c ≠ '[' := by
        refine ⟨?_, ?_, ?_⟩
        all_goals
          rintro rfl
          cases hc
      rw [heq, List.cons_append] at hnumber
      rw [Flat.dumps, heq, List.cons_append, loadValue_number hmark, (loadWord_digit hc _).1,
        Option.none_or, hnumber]
      rfl
    | negSucc n =>
      have hnumber := loadNumber_minus (n + 1) h
      obtain ⟨c, cs, heq, hc⟩ := toDigits_cons (n + 1)
      rw [heq, List.cons_append] at hnumber
      rw [Flat.dumps, heq, List.cons_append, List.cons_append, loadValue_number (by decide),
        (loadWord_digit hc _).2, Option.none_or, hnumber]
      rfl

/-- No blank stands before a value or a literal. -/
theorem skipBlanks_dumps {v : Flat} (hv : v.plain) (rest : List Char) :
    skipBlanks (v.dumps ++ rest) = v.dumps ++ rest := by
  cases v with
  | str s =>
    rw [Flat.dumps, jsonString_plain hv]
    rfl
  | int i =>
    cases i with
    | ofNat n =>
      obtain ⟨c, cs, heq, hc⟩ := toDigits_cons n
      have hblank : (c = ' ' || c = '\t' || c = '\n' || c = '\r') = false := by
        by_contra hblank
        simp only [Bool.not_eq_false, Bool.or_eq_true, decide_eq_true_eq] at hblank
        obtain ((rfl | rfl) | rfl) | rfl := hblank
        all_goals cases hc
      rw [Flat.dumps, heq, List.cons_append, skipBlanks, List.dropWhile_cons_of_neg (by simp [hblank])]
    | negSucc n => rfl

theorem skipBlanks_end (h : endsValue rest) : skipBlanks rest = rest := by
  obtain rfl | ⟨r, rfl | rfl | rfl⟩ := endsValue_cases h <;> rfl

/-- The entries that members stand for. -/
def flatDict (fields : List (String × Flat)) : Dict := fields.map fun m => (m.1, m.2.json)

/-- The printed members read back up to the closing brace. -/
theorem loadMembers_dumps {fields : List (String × Flat)} (hne : fields ≠ [])
    (hplain : ∀ m ∈ fields, plainText m.1 ∧ m.2.plain) {fuel : Nat} (hfuel : fields.length < fuel)
    (rest : List Char) :
    loadMembers fuel (dumpsMembers fields ++ '\x7d' :: rest) = some (flatDict fields, rest) := by
  induction fields generalizing fuel with
  | nil => exact absurd rfl hne
  | cons m ms ih =>
    obtain ⟨fuel, rfl⟩ : ∃ n, fuel = n + 1 + 1 := by
      rw [List.length_cons] at hfuel
      exact ⟨fuel - 2, by omega⟩
    obtain ⟨hkey, hvalue⟩ := hplain m List.mem_cons_self
    have hmember : ∀ tail, endsMember tail →
        loadMembers (fuel + 1 + 1) (dumpsMember m ++ tail) =
          match tail with
          | '\x7d' :: rest => some ([(m.1, m.2.json)], rest)
          | ',' :: rest => (loadMembers (fuel + 1) (skipBlanks rest)).map fun x =>
              ((m.1, m.2.json) :: x.1, x.2)
          | _ => none := by
      intro tail htail
      have hblank : skipBlanks (':' :: (m.2.dumps ++ tail)) = ':' :: (m.2.dumps ++ tail) := rfl
      rw [dumpsMember, List.append_assoc, jsonString_plain hkey, loadMembers]
      simp only [loadString_jsonString hkey, List.cons_append, hblank, skipBlanks_dumps hvalue,
        loadValue_dumps hvalue (endsValue_of_endsMember htail),
        skipBlanks_end (endsValue_of_endsMember htail), String.ofList_toList]
    cases ms with
    | nil => exact hmember ('\x7d' :: rest) rfl
    | cons m' ms =>
      have hrest := ih (by simp) (fun x hx => hplain x (List.mem_cons_of_mem _ hx))
        (show (m' :: ms).length < fuel + 1 by rw [List.length_cons] at hfuel; omega)
      have hblank : skipBlanks (dumpsMembers (m' :: ms) ++ '\x7d' :: rest) =
          dumpsMembers (m' :: ms) ++ '\x7d' :: rest := by
        cases ms <;> rfl
      rw [show dumpsMembers (m :: m' :: ms) = dumpsMember m ++ ',' :: dumpsMembers (m' :: ms) from rfl,
        List.append_assoc, List.cons_append, hmember _ rfl]
      simp only [hblank, hrest, Option.map_some]
      rfl

theorem length_dumpsMembers (fields : List (String × Flat)) :
    fields.length ≤ (dumpsMembers fields).length := by
  induction fields with
  | nil => exact Nat.le_refl 0
  | cons m ms ih =>
    have hpos : 0 < (dumpsMember m).length := by simp [dumpsMember, jsonString]
    cases ms with
    | nil => exact hpos
    | cons m' ms =>
      rw [show dumpsMembers (m :: m' :: ms) = dumpsMember m ++ ',' :: dumpsMembers (m' :: ms) from rfl,
        List.length_append, List.length_cons]
      have hcomma : (',' :: dumpsMembers (m' :: ms)).length =
          (dumpsMembers (m' :: ms)).length + 1 := rfl
      omega

/-- A printed object reads back. -/
theorem loads_dumpsFlat {fields : List (String × Flat)} (hne : fields ≠ [])
    (hplain : ∀ m ∈ fields, plainText m.1 ∧ m.2.plain) :
    loads (String.ofList (dumpsFlat fields)) = some (.obj (dictUpdate [] (flatDict fields))) := by
  have hlength := length_dumpsMembers fields
  have hfuel : fields.length < (dumpsFlat fields).length := by
    simp only [dumpsFlat, List.length_cons, List.length_append]
    omega
  have hmembers := loadMembers_dumps hne hplain hfuel []
  have hopen : ∃ rest, dumpsMembers fields ++ ['\x7d'] = '"' :: rest := by
    cases fields with
    | nil => exact absurd rfl hne
    | cons m ms => cases ms <;> exact ⟨_, rfl⟩
  obtain ⟨rest, hrest⟩ := hopen
  have hvalue : loadValue ((dumpsFlat fields).length + 1) (dumpsFlat fields) =
      some (.obj (dictUpdate [] (flatDict fields)), []) := by
    have hblank : skipBlanks ('"' :: rest) = '"' :: rest := rfl
    rw [hrest] at hmembers
    generalize (dumpsFlat fields).length = fuel at hmembers ⊢
    rw [dumpsFlat, hrest, loadValue]
    rw [hblank]
    exact congrArg (Option.map fun x => (Json.obj (dictUpdate [] x.1), x.2)) hmembers
  rw [loads, String.toList_ofList]
  have hblank : skipBlanks (dumpsFlat fields) = dumpsFlat fields := rfl
  rw [hblank, hvalue]
  rfl

end Meho
