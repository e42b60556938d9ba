import Meho.Dispatch.Effect

/- Names of operations: shell patterns over them, and the names that mean delete
(delete_names.py, the delete-sign rule of operations/service_grants.py).

A pattern is read as Python's `fnmatch` reads it: `*`, `?`, `[..]` and
`[!..]`; a `[` that nothing closes is itself. It is cut into pieces first and
the pieces are matched over the name, so both functions follow the lists they
read.

`deleteGrantReason` is the one rule for a delete sign: a configured pattern, a
vendor's delete name at the end of a path, or the operation's own level, verb
or tag.

Correspondence: each function keeps its name. -/
namespace Meho.Policy
open Meho.Dispatch

/-! ## Shell patterns -/

/-- One piece of a pattern. -/
inductive Glob where
  | any
  | one
  | lit (c : Char)
  | inClass (negated : Bool) (body : List Char)

/-- The body of a class up to its closing bracket. -/
def classBody : List Char → Option (List Char)
  | [] => none
  | c :: cs => if c = ']' then some [] else (classBody cs).map (c :: ·)

/-- What stands after an opening bracket: whether the class is negated, and its body. A closing
bracket at the start belongs to the body. -/
def readClass (cs : List Char) : Option (Bool × List Char) :=
  let negated := cs.head? = some '!'
  let cs := if negated then cs.tail else cs
  match cs with
  | ']' :: rest => (classBody rest).map fun body => (negated, ']' :: body)
  | cs => (classBody cs).map fun body => (negated, body)

/-- The pieces of a pattern; `skip` characters belong to a class that was read already. -/
def globPieces : Nat → List Char → List Glob
  | _, [] => []
  | skip + 1, _ :: cs => globPieces skip cs
  | 0, c :: cs =>
    if c = '*' then .any :: globPieces 0 cs
    else if c = '?' then .one :: globPieces 0 cs
    else if c = '[' then
      match readClass cs with
      | none => .lit '[' :: globPieces 0 cs
      | some (negated, body) =>
        .inClass negated body :: globPieces (body.length + 1 + if negated then 1 else 0) cs
    else .lit c :: globPieces 0 cs

/-- A character is in a class body: on its own, or between the ends of a range. -/
def classHas (c : Char) : List Char → Bool
  | a :: '-' :: b :: rest => (a ≤ c && c ≤ b) || classHas c rest
  | a :: rest => a = c || classHas c rest
  | [] => false

def globMatch : List Glob → List Char → Bool
  | [], text => text.isEmpty
  | .any :: pieces, text => text.tails.any (globMatch pieces)
  | .one :: pieces, text =>
    match text with
    | [] => false
    | _ :: rest => globMatch pieces rest
  | .lit a :: pieces, text =>
    match text with
    | [] => false
    | c :: rest => c = a && globMatch pieces rest
  | .inClass negated body :: pieces, text =>
    match text with
    | [] => false
    | c :: rest => (classHas c body != negated) && globMatch pieces rest

def fnmatchcase (name pattern : String) : Bool :=
  globMatch (globPieces 0 pattern.toList) name.toList

example : fnmatchcase "vault.kv.read" "vault.k?.*" = true := by decide
example : fnmatchcase "a]" "a[]-b]" = true := by decide
example : fnmatchcase "a[b" "a[b" = true := by decide

/-! ## Names that mean delete -/

def destructiveActionPrefixes : List String := ["Destroy", "Delete", "Remove", "Unregister"]

def vendorActionPrefixes : List String := ["Vsan", "VsanCluster", "VsanPerf", "VsanVit"]

def deleteActionQuery : String := "action=delete"

def deleteShapedOpIdPatterns : List String :=
  ["DELETE:*", "*.delete", "*.destroy", "*.remove", "*.purge"]

/-- The default of the pattern setting. -/
def defaultServiceGrantDeleteShapedPatterns : List String :=
  deleteShapedOpIdPatterns ++ ["POST:/vswitch/*"]

/-- `str.isupper()` on one character. `upper` answers for the letters outside ASCII. -/
def isUpper (upper : Char → Bool) (c : Char) : Bool :=
  if c.toNat < 128 then 'A' ≤ c && c ≤ 'Z' else upper c

section
variable (upper : Char → Bool)

/-- The segment starts with a delete word that ends at a word boundary. -/
def startsWithDeleteWord (segment : List Char) : Bool :=
  destructiveActionPrefixes.any fun word =>
    word.toList.isPrefixOf segment &&
      match segment.drop word.length with
      | [] => true
      | c :: _ => c = '_' || isUpper upper c

/-- The parts between `.`, `_`, `/` and `-`. -/
def nameSegments (name : List Char) : List (List Char) :=
  name.splitOnP fun c => c = '.' || c = '_' || c = '/' || c = '-'

def isDestructiveActionName (name : List Char) : Bool :=
  (nameSegments name).any fun segment =>
    startsWithDeleteWord upper segment ||
      vendorActionPrefixes.any fun vendor =>
        vendor.toList.isPrefixOf segment &&
          startsWithDeleteWord upper (segment.drop vendor.length)

/-- `text.partition(separator)`: before it, whether it is there, and after it. -/
def partitionChar (separator : Char) (text : List Char) : List Char × Bool × List Char :=
  (text.takeWhile (· ≠ separator), text.contains separator,
    (text.dropWhile (· ≠ separator)).tail)

/-- The delete name at the end of a path, or the query that says delete. -/
def destructiveActionNameInPath (path : List Char) : Option String :=
  let (rawPath, _, query) := partitionChar '?' path
  let actionName := ((rawPath.splitOn '/').getLast?).getD []
  if actionName ≠ [] && isDestructiveActionName upper actionName then
    some (String.ofList actionName)
  else if (query.splitOn '&').contains deleteActionQuery.toList then some deleteActionQuery
  else none

def destructiveActionNameInOpId (opId : String) : Option String :=
  let (_, separated, path) := partitionChar ':' opId.toList
  if separated && path.head? = some '/' then destructiveActionNameInPath upper path else none

example : destructiveActionNameInOpId upper "POST:/VirtualMachine/{moId}/Destroy_Task" =
    some "Destroy_Task" := by rfl
example : destructiveActionNameInOpId upper "POST:/vm/{id}/Destroyer" = none := by rfl
example : destructiveActionNameInOpId upper "POST:/links/{link}?action=delete" =
    some "action=delete" := by rfl

/-! ## The delete sign -/

/-- `repr` of a string of printable ASCII, as the texts below quote names. -/
def quoted (s : String) : String :=
  let quote := if s.toList.contains '\'' && !s.toList.contains '"' then '"' else '\''
  String.ofList ([quote] ++ (s.toList.flatMap fun c =>
    if c = '\\' || c = quote then ['\\', c] else [c]) ++ [quote])

def deleteShapedReasonByPattern (opId : String) (patterns : List String) : Option String :=
  (patterns.find? fun pattern => fnmatchcase opId pattern).map fun pattern =>
    "op " ++ quoted opId ++ " is delete-shaped (matches configured pattern " ++ quoted pattern ++
      "); delete-shaped operations are never grantable — a standing grant is the floor of what " ++
      "runs unattended, not a bypass of a destructive gate"

def deleteShapedReasonByActionName (opId : String) : Option String :=
  (destructiveActionNameInOpId upper opId).map fun actionName =>
    "op " ++ quoted opId ++ " is a delete (vendor action name " ++ quoted actionName ++
      "); delete operations are never grantable — a standing grant is the floor of what runs " ++
      "unattended, not a bypass of a destructive gate"

def deleteShapedRefusalReason (opId : String) (patterns : List String) : Option String :=
  match deleteShapedReasonByPattern opId patterns with
  | some reason => some reason
  | none => deleteShapedReasonByActionName upper opId

/-- `str.upper()` as far as an HTTP verb can tell: no letter outside ASCII has an upper case
that is part of a verb the code compares with. -/
def upperVerb (method : String) : String := String.ofList (method.toList.map Char.toUpper)

def deleteShapedReasonByDescriptor (descriptor : EndpointDescriptor) : Option String :=
  let op := "op " ++ quoted descriptor.opId
  if descriptor.safetyLevel = .destructive then
    some (op ++ " is safety_level=destructive; delete-shaped operations are never grantable — a " ++
      "standing grant is the floor of what runs unattended, not a bypass of a destructive gate")
  else if upperVerb (descriptor.method.getD "") = "DELETE" then
    some (op ++ " is a DELETE operation; delete-shaped operations are never grantable")
  else if descriptor.tags.contains "destructive" then
    some (op ++ " carries the 'destructive' tag; delete-shaped operations are never grantable")
  else none

/-- Why an operation carries a delete sign, `none` when it carries none. -/
def deleteGrantReason (patterns : List String) (descriptor : EndpointDescriptor) :
    Option String :=
  match deleteShapedRefusalReason upper descriptor.opId patterns with
  | some reason => some reason
  | none => deleteShapedReasonByDescriptor descriptor

end

end Meho.Policy
