import Meho.Json

/- Delegated decisions: the trailer block at the end of a decision's reason
(operations/approval_queue.py `parse_delegation`).

A reason is delegated when some line of it starts with `Instructed-by:`. Then
its last paragraph must be a block of `Key: value` lines that names who
instructed, what they wrote and where it is tracked; anything else is refused.
Lines and blanks are Python's: `strip` takes Unicode white space,
`splitlines` also splits at the other line boundaries, and the
case-insensitive word also matches the letters Python folds onto it.

Correspondence: `_INSTRUCTED_BY_LINE` ↔ `instructedByLine`, `_TRAILER_LINE` ↔
`trailerLine`; what is not listed keeps its name. -/
namespace Meho.Approval

/-- Who told the approver to decide, in their own words. -/
structure Delegation where
  instructedBy : String
  instruction : String
  refs : List String
  deriving DecidableEq, Repr

/-- The JSON shape stored on the decision audit row. -/
def Delegation.toPayload (d : Delegation) : Json :=
  .obj [("instructed_by", .str d.instructedBy), ("instruction", .str d.instruction),
    ("refs", .arr (d.refs.map .str))]

/-- `str.isspace` of one character. -/
def isPySpace (c : Char) : Bool :=
  let n := c.toNat
  (9 ≤ n && n ≤ 13) || (28 ≤ n && n ≤ 32) || n = 0x85 || n = 0xA0 || n = 0x1680 ||
    (0x2000 ≤ n && n ≤ 0x200A) || n = 0x2028 || n = 0x2029 || n = 0x202F || n = 0x205F ||
    n = 0x3000

/-- A boundary of `str.splitlines` (the pair of carriage return and line feed is one). -/
def isLineBoundary (c : Char) : Bool :=
  let n := c.toNat
  (10 ≤ n && n ≤ 13) || (28 ≤ n && n ≤ 30) || n = 0x85 || n = 0x2028 || n = 0x2029

def isBlank (c : Char) : Bool := c = ' ' || c = '\t'

def strip (cs : List Char) : List Char :=
  ((cs.dropWhile isPySpace).reverse.dropWhile isPySpace).reverse

/-- `str.splitlines`: `line` is the current line, reversed. -/
def splitLinesFrom (line : List Char) : List Char → List (List Char)
  | [] => if line.isEmpty then [] else [line.reverse]
  | '\r' :: '\n' :: rest => line.reverse :: splitLinesFrom [] rest
  | c :: rest =>
    if isLineBoundary c then line.reverse :: splitLinesFrom [] rest
    else splitLinesFrom (c :: line) rest

/-- The characters a case-insensitive pattern letter matches. -/
def foldsTo (p c : Char) : Bool :=
  c.toLower = p || (p = 'i' && (c = '\u0130' || c = '\u0131')) || (p = 's' && c = '\u017F')

def stripWord : List Char → List Char → Option (List Char)
  | [], cs => some cs
  | _ :: _, [] => none
  | p :: ps, c :: cs => if foldsTo p c then stripWord ps cs else none

/-- Some line starts with `Instructed-by:`, in any case. -/
def instructedByLine (reason : List Char) : Bool :=
  (reason.splitOn '\n').any fun line =>
    match stripWord "instructed-by".toList (line.dropWhile isBlank) with
    | none => false
    | some rest => (rest.dropWhile isBlank).head? = some ':'

def isAsciiLetter (c : Char) : Bool := ('a' ≤ c && c ≤ 'z') || ('A' ≤ c && c ≤ 'Z')

def isKeyChar (c : Char) : Bool := isAsciiLetter c || ('0' ≤ c && c ≤ '9') || c = '-'

/-- One `Key: value` line, the value without leading blanks. -/
def trailerLine (line : List Char) : Option (List Char × List Char) :=
  match line with
  | [] => none
  | c :: rest =>
    if isAsciiLetter c then
      match (rest.dropWhile isKeyChar).dropWhile isBlank with
      | ':' :: value => some (c :: rest.takeWhile isKeyChar, value.dropWhile isBlank)
      | _ => none
    else none

/-- The lines of a block as lower-case keys and values. A repeated key is an error, a line that
is no trailer line ends in `none`. -/
def trailerEntries : List (String × String) → List (List Char) →
    Except String (Option (List (String × String)))
  | seen, [] => .ok (some seen)
  | seen, line :: rest =>
    match trailerLine line with
    | none => .ok none
    | some (key, value) =>
      let name := String.ofList key
      let low := String.ofList (key.map Char.toLower)
      if seen.any (·.1 = low) then .error s!"the {name}: line appears more than once"
      else trailerEntries (seen ++ [(low, String.ofList (strip value))]) rest

/-- The last paragraph of the reason as trailers. -/
def trailerBlock (reason : List Char) : Except String (Option (List (String × String))) :=
  let lines := (splitLinesFrom [] (strip reason)).reverse
  let block := (lines.takeWhile fun line => !(strip line).isEmpty).reverse.map strip
  trailerEntries [] block

/-- Remove one pair of surrounding double quotes, straight or typographic. -/
def unquote (value : String) : String :=
  match value.toList with
  | [] => value
  | [_] => value
  | opening :: rest =>
    match rest.reverse with
    | closing :: inner =>
      if (opening = '"' ∧ closing = '"') ∨ (opening = '\u201c' ∧ closing = '\u201d') then
        String.ofList (strip inner.reverse)
      else value
    | [] => value

def delegationRefs (refs : String) : List String :=
  ((refs.toList.splitOn ',').map fun ref => String.ofList (strip ref)).filter (· ≠ "")

def trailerValue (trailers : List (String × String)) (key : String) : Option String :=
  (trailers.find? (·.1 = key)).map (·.2)

/-- The names of the parts that are empty. -/
def missingTrailers (d : Delegation) : List String :=
  (if d.instructedBy = "" then ["Instructed-by"] else []) ++
    (if d.instruction = "" then ["Instruction"] else []) ++
    (if d.refs.isEmpty then ["Refs"] else [])

/-- The delegation a reason carries, `none` for an ordinary decision, or why the reason is
refused. -/
def parseDelegation (reason : String) : Except String (Option Delegation) :=
  let cs := reason.toList
  if !instructedByLine cs then .ok none
  else
    match trailerBlock cs with
    | .error problem => .error problem
    | .ok trailers =>
      match trailers.bind fun t => (trailerValue t "instructed-by").map fun v => (t, v) with
      | none =>
        .error ("the Instructed-by:, Instruction: and Refs: lines must be one block " ++
          "of 'Key: value' lines at the end of the reason, after a blank line")
      | some (t, instructedBy) =>
        let instruction := unquote ((trailerValue t "instruction").getD "")
        let refs := delegationRefs ((trailerValue t "refs").getD "")
        let missing := missingTrailers ⟨instructedBy, instruction, refs⟩
        if missing.isEmpty then .ok (some ⟨instructedBy, instruction, refs⟩)
        else .error ("missing or empty: " ++ String.intercalate ", " missing)

example : parseDelegation "looks fine" = .ok none := by decide

example : parseDelegation "ok\n\nInstructed-by: a\nInstruction: \"do it\"\nRefs: #1, #2" =
    .ok (some ⟨"a", "do it", ["#1", "#2"]⟩) := by decide

end Meho.Approval
