import Meho.Json

/- The redaction engine at the connector boundary (redaction/engine.py, redaction/policy.py,
redaction/resolver.py).

A policy's rules run one after the other over a whole answer, each on what the rules before
it left. A rule looks at every text; a list of two or more texts is one text, its rows joined
 by newlines, and every row keeps its place and loses its own part of a match. Every firing of
a rule on a text or a row is an entry of the manifest. A shadow policy reports and changes
nothing.

The named patterns, the keyed fingerprint and the second tier are parameters
(`RedactionTools`). Texts are read by characters.

Correspondence: `RedactionScope.matches` ↔ `RedactionScope.fits`; what is not listed
keeps its name. -/
namespace Meho.Redaction

/-! ## Policies -/

/-- The labels of a call. -/
structure CallLabels where
  connectorId : Option String
  tenant : Option String
  op : Option String
  deriving DecidableEq, Repr

inductive RedactionAction where
  | redact
  | mask
  | hash
  deriving DecidableEq, Repr

inductive RedactionMode where
  | enforce
  | shadow
  deriving DecidableEq, Repr

/-- The calls a rule is for. -/
structure RedactionScope where
  connectorId : Option String
  tenant : Option String
  op : Option String
  deriving DecidableEq, Repr

/-- A field that is not set fits every label. -/
def RedactionScope.fits (scope : RedactionScope) (labels : CallLabels) : Bool :=
  if scope.connectorId.isSome && scope.connectorId ≠ labels.connectorId then false
  else if scope.tenant.isSome && scope.tenant ≠ labels.tenant then false
  else if scope.op.isSome && scope.op ≠ labels.op then false
  else true

structure RedactionRule where
  name : String
  pattern : String
  action : RedactionAction
  scope : RedactionScope
  reason : String
  deriving DecidableEq, Repr

structure Tier2Rule where
  name : String
  fields : List String
  entities : List String
  action : RedactionAction
  scope : RedactionScope
  reason : String
  deriving DecidableEq, Repr

structure RedactionPolicy where
  id : String
  mode : RedactionMode
  rules : List RedactionRule
  tier2 : List Tier2Rule
  id_ne : id ≠ ""
  deriving DecidableEq

structure RedactionManifestEntry where
  rule : String
  pattern : String
  action : RedactionAction
  count : Nat
  span : Nat × Nat
  reason : String
  path : String
  deriving DecidableEq, Repr

/-- The matchers and texts the engine is given. -/
structure RedactionTools where
  /-- The matches of a named pattern in a text, from the left. -/
  secretSpans : String → String → List (Nat × Nat)
  /-- `compute_value_fingerprint`. -/
  valueFingerprint : String → String
  /-- `compute_audit_digest_hash` of a value's canonical JSON. -/
  auditDigest : Json → String
  applyTier2 : RedactionPolicy → CallLabels → Json → Json × List RedactionManifestEntry
  /-- Whether `redact_error_payload` raises on a value. -/
  errorCleanupRaises : Json → Bool

/-! ## One text -/

section Engine
variable (tools : RedactionTools)

/-- `text[start:stop]`. -/
def slice (text : String) (start stop : Nat) : String :=
  String.ofList ((text.toList.drop start).take (stop - start))

def maskSuffixLen : Nat := 4

def hashSuffixLen : Nat := 12

def replacementFor (rule : RedactionRule) (matched : String) : String :=
  match rule.action with
  | .redact => "[REDACTED:" ++ rule.pattern ++ "]"
  | .mask =>
    let hidden := matched.length - maskSuffixLen
    if matched.length ≤ maskSuffixLen then String.ofList (List.replicate matched.length '*')
    else String.ofList (List.replicate hidden '*') ++ slice matched hidden matched.length
  | .hash => "hmac-sha256:" ++ slice (tools.valueFingerprint matched) 0 hashSuffixLen

/-- From `cursor` on. -/
def replaceSpans (rule : RedactionRule) (leaf : String) : Nat → List (Nat × Nat) → String
  | cursor, [] => slice leaf cursor leaf.length
  | cursor, (start, stop) :: spans =>
    slice leaf cursor start ++ replacementFor tools rule (slice leaf start stop) ++
      replaceSpans rule leaf stop spans

variable (mutate : Bool) (rule : RedactionRule)

/-- A text or a row with its matches: what becomes of it, and the entry. -/
def applySpans (path : String) (leaf : String) (spans : List (Nat × Nat)) :
    String × List RedactionManifestEntry :=
  match spans with
  | [] => (leaf, [])
  | first :: _ =>
    (if mutate then replaceSpans tools rule leaf 0 spans else leaf,
      [⟨rule.name, rule.pattern, rule.action, spans.length, first, rule.reason, path⟩])

def applyToStr (path : String) (leaf : String) : String × List RedactionManifestEntry :=
  applySpans tools mutate rule path leaf (tools.secretSpans rule.pattern leaf)

def joinPath (parent child : String) : String :=
  if parent = "" then child else parent ++ "." ++ child

/-- The parts of the matches that fall into the row from `offset` to `stop`. -/
def rowSpans (offset stop : Nat) (spans : List (Nat × Nat)) : List (Nat × Nat) :=
  (spans.takeWhile (·.1 < stop)).filterMap fun span =>
    if span.1 < span.2 then some (max span.1 offset - offset, min span.2 stop - offset) else none

/-- The rows from number `index` on, which starts at `offset` of the joined text. -/
def rewriteRows (path : String) : Nat → Nat → List (Nat × Nat) → List String →
    List String × List RedactionManifestEntry
  | _, _, _, [] => ([], [])
  | index, offset, spans, row :: rows =>
    -- a match that ends before this row is left behind for good
    let spans := spans.dropWhile (·.2 ≤ offset)
    let stop := offset + row.length
    let done := applySpans tools mutate rule (joinPath path (toString index)) row
      (rowSpans offset stop spans)
    let rest := rewriteRows path (index + 1) (stop + 1) spans rows
    (done.1 :: rest.1, done.2 ++ rest.2)

def joinRows (rows : List String) : String := "\n".intercalate rows

def applyToRows (path : String) (rows : List String) :
    List String × List RedactionManifestEntry :=
  rewriteRows tools mutate rule path 0 0 (tools.secretSpans rule.pattern (joinRows rows)) rows

/-! ## A whole answer -/

/-- The rows of a list of two or more texts. -/
def rowsOf? (items : List Json) : Option (List String) :=
  if 1 < items.length then items.mapM Json.asStr? else none

mutual
def walkAndApply (path : String) : Json → Json × List RedactionManifestEntry
  | .str leaf =>
    let r := applyToStr tools mutate rule path leaf
    (.str r.1, r.2)
  | .obj fields =>
    let r := walkFields path fields
    (.obj r.1, r.2)
  | .arr items =>
    match rowsOf? items with
    | some rows =>
      let r := applyToRows tools mutate rule path rows
      (.arr (r.1.map .str), r.2)
    | none =>
      let r := walkItems path 0 items
      (.arr r.1, r.2)
  | node => (node, [])

def walkFields (path : String) : Dict → Dict × List RedactionManifestEntry
  | [] => ([], [])
  | (key, value) :: fields =>
    let r := walkAndApply (joinPath path key) value
    let rest := walkFields path fields
    ((key, r.1) :: rest.1, r.2 ++ rest.2)

def walkItems (path : String) (index : Nat) : List Json → List Json × List RedactionManifestEntry
  | [] => ([], [])
  | item :: items =>
    let r := walkAndApply (joinPath path (toString index)) item
    let rest := walkItems path (index + 1) items
    (r.1 :: rest.1, r.2 ++ rest.2)
end

end Engine

/-- Rules in their order, each on what the ones before it left. -/
def runRules (tools : RedactionTools) (mutate : Bool) :
    List RedactionRule → String → Json → Json × List RedactionManifestEntry
  | [], _, node => (node, [])
  | rule :: rules, path, node =>
    let r := walkAndApply tools mutate rule path node
    let rest := runRules tools mutate rules path r.1
    (rest.1, r.2 ++ rest.2)

def RedactionPolicy.mutates (policy : RedactionPolicy) : Bool := policy.mode ≠ .shadow

def RedactionPolicy.applicable (policy : RedactionPolicy) (labels : CallLabels) :
    List RedactionRule :=
  policy.rules.filter (·.scope.fits labels)

def redact (tools : RedactionTools) (payload : Json) (policy : RedactionPolicy)
    (labels : CallLabels) : Json × List RedactionManifestEntry :=
  runRules tools policy.mutates (policy.applicable labels) "" payload

/-! ## Which policy -/

/-- The registered overrides by their labels, and the packaged default. -/
structure PolicyRegistry where
  overrides : List (CallLabels × RedactionPolicy)
  default : RedactionPolicy

def PolicyRegistry.all (registry : PolicyRegistry) : List RedactionPolicy :=
  registry.overrides.map Prod.snd ++ [registry.default]

/-- The keys of the overrides that fit a call, the most labels first. -/
def specificityLadder (labels : CallLabels) : List CallLabels :=
  [⟨labels.connectorId, labels.tenant, labels.op⟩, ⟨labels.connectorId, none, labels.op⟩,
    ⟨labels.connectorId, labels.tenant, none⟩, ⟨labels.connectorId, none, none⟩,
    ⟨none, labels.tenant, none⟩, ⟨none, none, none⟩]

def resolvePolicy (registry : PolicyRegistry) (labels : CallLabels) : RedactionPolicy :=
  ((specificityLadder labels).findSome? fun key => registry.overrides.lookup key).getD
    registry.default

end Meho.Redaction
