import Meho.JsonLoads
import Meho.Lib.Query
import Meho.Runner.WorkItem
import Meho.Redaction.ParamNames

/- The scanner that finds secret-named fields in text (redaction/secret_fields.py).

The text need not be JSON. A pair starts at a quoted name, a colon and what opens the
value; the value is walked to its closing quote or bracket, in escaped JSON by the
rules of the escaped text. A loop that jumps ahead is written with `skip`, the
characters it has jumped over and not yet passed, so every scan ends with the text.

Correspondence: `_MEMBER`, `_ESCAPED_MEMBER` ↔ `memberStart`; what is not
listed keeps its name. -/
namespace Meho.Redaction.FieldScan
open Lib
open Runner (isSpace strip)

/-! ## Where a value ends -/

/-- How far the closing quote is, stepping over escapes. -/
def plainValueEnd (quote : Char) : List Char → Option Nat
  | [] => none
  | c :: rest =>
    if c = '\\' then
      match rest with
      | [] => none
      | _ :: rest => (plainValueEnd quote rest).map (· + 2)
    else if c = quote then some 0
    else (plainValueEnd quote rest).map (· + 1)

/-- How far the closing quote of an escaped value is: an escape of the inner text is an
escaped backslash and one more unit, which may be escaped too. -/
def escapedValueEnd : List Char → Option Nat
  | [] => none
  | c :: rest =>
    if c = '\\' then
      match rest with
      | [] => none
      | d :: rest =>
        if d = '"' then some 0
        else
          match rest with
          | a :: b :: rest' =>
            if d = '\\' ∧ a = '\\' ∧ (b = '\\' ∨ b = '"') then
              (escapedValueEnd rest').map (· + 4)
            else (escapedValueEnd (a :: b :: rest')).map (· + 2)
          | rest => (escapedValueEnd rest).map (· + 2)
    else (escapedValueEnd rest).map (· + 1)

/-- How long the quoted string or the escape at the start of `text` is, 0 when neither
stands there. -/
def afterStringOrEscape (escaped : Bool) (text : List Char) : Nat :=
  match text with
  | [] => 0
  | c :: rest =>
    if c = '\\' then
      if escaped && rest.head? == some '"' then
        match escapedValueEnd (rest.drop 1) with
        | none => text.length
        | some n => n + 4
      else 2
    else if !escaped && (c == '"' || c == '\'') then
      match plainValueEnd c rest with
      | none => text.length
      | some n => n + 2
    else 0

def isBracket (c : Char) : Bool := c = '\x7b' || c = '['

def isCloser (c : Char) : Bool := c = '\x7d' || c = ']'

/-- The walk over the brackets of a value. -/
def bracketEnd (escaped : Bool) : Nat → Int → List Char → Option Nat
  | _, _, [] => none
  | skip + 1, depth, _ :: rest => (bracketEnd escaped skip depth rest).map (· + 1)
  | 0, depth, c :: rest =>
    match afterStringOrEscape escaped (c :: rest) with
    | after + 1 => (bracketEnd escaped after depth rest).map (· + 1)
    | 0 =>
      if isBracket c then (bracketEnd escaped 0 (depth + 1) rest).map (· + 1)
      else if isCloser c then
        if depth - 1 = 0 then some 1
        else (bracketEnd escaped 0 (depth - 1) rest).map (· + 1)
      else (bracketEnd escaped 0 depth rest).map (· + 1)

/-- How far the value goes whose bracket `text` starts with. -/
def bracketValueEnd (escaped : Bool) (text : List Char) : Option Nat := bracketEnd escaped 0 0 text

/-! ## Where a pair starts -/

def isNameChar (c : Char) : Bool :=
  c.isAlphanum || c = '_' || c = '.' || c = '-'

/-- One unit of `_NAME`: a name character, or backslashes, `u` and four hex digits. -/
def nameUnit : List Char → Option Nat
  | [] => none
  | c :: rest =>
    if isNameChar c then some 1
    else if c = '\\' then
      let slashes := (rest.takeWhile (· = '\\')).length
      match rest.drop slashes with
      | 'u' :: hex => (hexUnit hex).map fun _ => slashes + 6
      | _ => none
    else none

/-- How long the name is that a text starts with, of at most `limit` units. -/
def nameLength : Nat → List Char → Nat
  | 0, _ => 0
  | limit + 1, text =>
    match nameUnit text with
    | none => 0
    | some n => n + nameLength limit (text.drop n)

/-- The bound of `_NAME`. -/
def maxNameUnits : Nat := 128

/-- The quote of a key. -/
def keyQuote (escaped : Bool) (text : List Char) : Option (List Char) :=
  if escaped then if ['\\', '"'].isPrefixOf text then some ['\\', '"'] else none
  else
    match text.head? with
    | some c => if c = '"' ∨ c = '\'' then some [c] else none
    | none => none

/-- A colon between blanks. -/
def colonLength (text : List Char) : Option Nat :=
  let before := text.takeWhile isSpace
  match text.drop before.length with
  | ':' :: rest => some (before.length + 1 + (rest.takeWhile isSpace).length)
  | _ => none

/-- What opens a value: a quote or a bracket. -/
def valueOpener (escaped : Bool) (text : List Char) : Option (List Char) :=
  match text.head? with
  | some c => if isBracket c then some [c] else keyQuote escaped text
  | none => none

/-- A member of an object up to what opens its value. -/
structure Member where
  key : List Char
  opener : List Char
  length : Nat
  deriving DecidableEq, Repr

/-- `_ESCAPED_MEMBER` or `_MEMBER` at the start of a text. -/
def memberStart (escaped : Bool) (text : List Char) : Option Member :=
  match keyQuote escaped text with
  | none => none
  | some quote =>
    let rest := text.drop quote.length
    let n := nameLength maxNameUnits rest
    let behind := rest.drop n
    if n ≠ 0 ∧ quote.isPrefixOf behind then
      match colonLength (behind.drop quote.length) with
      | none => none
      | some colon =>
        match valueOpener escaped (behind.drop (quote.length + colon)) with
        | none => none
        | some opener =>
          some ⟨rest.take n, opener, quote.length + n + quote.length + colon + opener.length⟩
    else none

/-- A match in a text. -/
structure Match extends Member where
  start : Nat
  escaped : Bool
  deriving DecidableEq, Repr

namespace Match

/-- `match.end()`. -/
def stop (m : Match) : Nat := m.start + m.length

def bracketed (m : Match) : Bool := m.opener = ['\x7b'] || m.opener = ['[']

end Match

/-- `_PAIR_START` at the start of a text that begins at `start`. -/
def pairStart (start : Nat) (text : List Char) : Option Match :=
  match memberStart true text with
  | some m => some ⟨m, start, true⟩
  | none => (memberStart false text).map fun m => ⟨m, start, false⟩

/-- `_PAIR_START.finditer`. -/
def pairStarts : Nat → Nat → List Char → List Match
  | _, _, [] => []
  | skip + 1, start, _ :: rest => pairStarts skip (start + 1) rest
  | 0, start, c :: rest =>
    match pairStart start (c :: rest) with
    | some m => m :: pairStarts (m.length - 1) (start + 1) rest
    | none => pairStarts 0 (start + 1) rest

/-! ## What a name says -/

/-- `json.loads` of a text between quotes, with control characters. -/
def decodeLiteral : Nat → List Char → Option (List Char)
  | _, [] => some []
  | 0, _ :: _ => none
  | fuel + 1, c :: rest =>
    if c = '\\' then
      match loadEscape rest with
      | some (d, rest) => (decodeLiteral fuel rest).map (d :: ·)
      | none => none
    else if c = '"' then none
    else (decodeLiteral fuel rest).map (c :: ·)

def decodeTimes : Nat → List Char → List Char
  | 0, name => name
  | n + 1, name =>
    if name.contains '\\' then
      match decodeLiteral name.length name with
      | none => name
      | some decoded => decodeTimes n decoded
    else name

/-- The string that a name stands for. -/
def decodeName (raw : List Char) (escaped : Bool) : String :=
  String.ofList (decodeTimes (if escaped then 2 else 1) raw)

/-! ## Values that stay -/

/-- `value.strip("*")`. -/
def stripStars (value : List Char) : List Char :=
  ((value.dropWhile (· = '*')).reverse.dropWhile (· = '*')).reverse

def placeholderHeads : List (List Char) :=
  ["[REDACTED:".toList, "[OMITTED:".toList, "[MEHO-REDACTED:".toList, "[MEHO-OMITTED:".toList]

/-- A character of a label. -/
def isLabelChar (c : Char) : Bool :=
  !(c = '[' || c = ']' || c = '"' || c = '\'' || isSpace c)

/-- `_PLACEHOLDER.fullmatch`. -/
def matchesPlaceholder (value : List Char) : Bool :=
  value = "[redacted]".toList ||
    placeholderHeads.any fun head =>
      let rest := value.drop head.length
      head.isPrefixOf value && rest.getLast? = some ']' && rest.dropLast ≠ [] &&
        rest.dropLast.all isLabelChar

def isPlaceholder (value : List Char) : Bool :=
  let core := stripStars value
  if core = [] then 2 ≤ value.length
  else if core = "REDACTED".toList then value.head? = some '*' && value.getLast? = some '*'
  else matchesPlaceholder value

/-! ## Fields -/

/-- A pair with a secret name and the place of its value. -/
structure QuotedSecretField where
  name : String
  value : List Char
  start : Nat
  stop : Nat
  bracketed : Bool
  escaped : Bool
  deriving DecidableEq, Repr

/-- `text[start:stop]`. -/
def slice (text : List Char) (start stop : Nat) : List Char := (text.drop start).take (stop - start)

def valueEnd (text : List Char) (m : Match) (bracketed : Bool) : Option Nat :=
  if bracketed then
    (bracketValueEnd m.escaped (text.drop (m.stop - 1))).map (m.stop - 1 + ·)
  else if m.escaped then (escapedValueEnd (text.drop m.stop)).map (m.stop + ·)
  else (plainValueEnd (m.opener.headD '"') (text.drop m.stop)).map (m.stop + ·)

def fieldOf (text : List Char) (m : Match) (name : String) : QuotedSecretField :=
  let start := if m.bracketed then m.stop - 1 else m.stop
  let stop := (valueEnd text m m.bracketed).getD text.length
  ⟨name, slice text start stop, start, stop, m.bracketed, m.escaped⟩

def afterField (text : List Char) (field : QuotedSecretField) : Nat :=
  if field.bracketed || field.stop = text.length then field.stop
  else field.stop + (if field.escaped then 2 else 1)

def isKeyStart (c : Char) : Bool := c = '"' || c = '\'' || c = '\\'

section
variable (want stop : String) (escaped : Bool)

/-- The walk over the members behind `index`. -/
def siblingFrom : Nat → Nat → Nat → List Char → Option Match
  | _, _, _, [] => none
  | skip + 1, depth, index, _ :: rest => siblingFrom skip depth (index + 1) rest
  | 0, depth, index, c :: rest =>
    let member := if depth = 0 && isKeyStart c then memberStart escaped (c :: rest) else none
    let key := member.map fun m => decodeName m.key escaped
    if key = some want then member.map fun m => ⟨m, index, escaped⟩
    else if key = some stop then none
    else
      match afterStringOrEscape escaped (c :: rest) with
      | after + 1 => siblingFrom after depth (index + 1) rest
      | 0 =>
        if isBracket c then siblingFrom 0 (depth + 1) (index + 1) rest
        else if isCloser c then
          if depth = 0 then none else siblingFrom 0 (depth - 1) (index + 1) rest
        else siblingFrom 0 depth (index + 1) rest

/-- The first member with the key `want` from `index` on, in the same object. -/
def siblingMember (text : List Char) (index : Nat) : Option Match :=
  siblingFrom want stop escaped 0 0 index (text.drop index)

end

/-- The string under a `name` member when it is a secret name. -/
def pairName (text : List Char) (m : Match) : Option String :=
  if m.bracketed then none
  else
    match valueEnd text m false with
    | none => none
    | some stop =>
      let name := decodeName (slice text m.stop stop) m.escaped
      if isSecretParamName name then some name else none

/-- The `value` of a pair object whose `name` is a secret name, from either member. -/
def pairValueField (text : List Char) (m : Match) (key : String) : Option QuotedSecretField :=
  if key = "name" then
    match pairName text m with
    | none => none
    | some name =>
      let after := (valueEnd text m false).getD 0 + (if m.escaped then 2 else 1)
      (siblingMember "value" "name" m.escaped text after).map fun value => fieldOf text value name
  else
    let field := fieldOf text m key
    match siblingMember "name" "value" m.escaped text (afterField text field) with
    | none => none
    | some nameMember => (pairName text nameMember).map fun name => { field with name }

/-- The fields in the order of the keys that find them. -/
def findFrom (text : List Char) : Nat → List Match → List QuotedSecretField
  | _, [] => []
  | cursor, m :: ms =>
    if m.start < cursor then findFrom text cursor ms
    else
      let name := decodeName m.key m.escaped
      if name = "name" ∨ name = "value" then
        (pairValueField text m name).toList ++ findFrom text cursor ms
      else if isSecretParamName name then
        let field := fieldOf text m name
        field :: findFrom text field.stop ms
      else findFrom text cursor ms

def findSecretFields (text : List Char) : List QuotedSecretField :=
  findFrom text 0 (pairStarts 0 0 text)

/-- The fields that do not start before `cursor`, each once. -/
def iterFrom : Nat → List (Nat × Nat) → List QuotedSecretField → List QuotedSecretField
  | _, _, [] => []
  | cursor, spans, field :: fields =>
    if field.start < cursor || spans.contains (field.start, field.stop) then
      iterFrom cursor spans fields
    else field :: iterFrom field.stop ((field.start, field.stop) :: spans) fields

def iterQuotedSecretFields (text : List Char) : List QuotedSecretField :=
  iterFrom 0 [] (orderBy QuotedSecretField.start (findSecretFields text))

/-! ## The scrub -/

def isEmpty (field : QuotedSecretField) : Bool :=
  if field.bracketed then
    (strip (field.value.drop 1).dropLast).isEmpty &&
      (match field.value.getLast? with
        | some c => isCloser c
        | none => true)
  else field.value.isEmpty

/-- `SECRET_FIELD_MARKER`. -/
def secretFieldMarker : List Char := redactedParam.toList

/-- What stands in place of a value. -/
def replacement (field : QuotedSecretField) : List Char :=
  if field.bracketed then
    let quote := if field.escaped then ['\\', '"'] else ['"']
    quote ++ secretFieldMarker ++ quote
  else secretFieldMarker

def scrubFrom (text : List Char) : Nat → List QuotedSecretField → List Char
  | cursor, [] => text.drop cursor
  | cursor, field :: fields =>
    if isEmpty field || isPlaceholder field.value then scrubFrom text cursor fields
    else slice text cursor field.start ++ replacement field ++ scrubFrom text field.stop fields

def scrubSecretFieldsInText (text : List Char) : List Char :=
  scrubFrom text 0 (iterQuotedSecretFields text)

end Meho.Redaction.FieldScan
