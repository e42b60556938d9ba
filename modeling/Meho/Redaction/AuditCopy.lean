import Meho.Redaction.Engine
import Meho.Redaction.FieldScan
import Meho.Redaction.ParamNames

/- What the audit row of a dispatch stores of the answer (operations/dispatcher.py,
operations/_secret_values.py, operations/_vendor_text.py, redaction/middleware.py,
redaction/secret_fields.py).

The answer goes through the policy of its call. Of an operation that makes a new credential
the audit copy first loses its secret-named values to a marker. Then every value that the
default view of the answer does not show is replaced by its keyed fingerprint, and the row
keeps the manifest and the policy's id.

Correspondence: `apply_connector_boundary_redaction`, `_apply_redaction_middleware` ↔
`boundaryRedaction`; `_protect_secret_values` ↔ `storedCopy`; `write_audit_row` ↔
`auditRow`; what is not listed keeps its name. -/
namespace Meho.Redaction

def secretValuePlaceholder : String := "[REDACTED:secret_value]"

def fingerprintPrefix : String := "[FINGERPRINT:hmac-sha256:"

/-! ## The default view -/

mutual
/-- Every leaf hidden; keys and list sizes stay. -/
def hideAll : Json → Json
  | .obj fields => .obj (hideAllFields fields)
  | .arr items => .arr (hideAllItems items)
  | _ => .str secretValuePlaceholder

def hideAllFields : Dict → Dict
  | [] => []
  | (key, value) :: fields => (key, hideAll value) :: hideAllFields fields

def hideAllItems : List Json → List Json
  | [] => []
  | item :: items => hideAll item :: hideAllItems items
end

/-- The entries but one, scrubbed by their names, numbers included. -/
def scrubWithout (key : String) (fields : Dict) : Dict :=
  let rest := fields.filter (·.1 ≠ key)
  (scrubFields true [] (isSecretNameValuePair [] rest) rest).1

/-- `vault.kv.read`: the names under `data` stay. -/
def hideKvData (answer : Json) : Json :=
  match answer with
  | .obj fields =>
    match dictGet fields "data" with
    | some (.obj data) =>
      .obj (dictSet (scrubWithout "data" fields) "data"
        (.obj (data.map fun entry => (entry.1, .str secretValuePlaceholder))))
    | _ => hideAll answer
  | _ => hideAll answer

/-- `NAME=value` keeps its name. -/
def hideEnvValue (entry : Json) : Json :=
  match entry with
  | .str text =>
    if '=' ∈ text.toList then
      .str (String.ofList (text.toList.takeWhile (· ≠ '=')) ++ "=" ++ secretValuePlaceholder)
    else .str secretValuePlaceholder
  | _ => .str secretValuePlaceholder

/-- The raw entries when they line up with the redacted ones. -/
def envEntries (redacted : List Json) (raw : Json) : List Json :=
  match raw with
  | .obj fields =>
    match dictGet fields "variables" with
    | some (.arr entries) => if entries.length = redacted.length then entries else redacted
    | _ => redacted
  | _ => redacted

/-- `vmware.composite.vm.guest.env.read`. -/
def hideEnvValues (answer raw : Json) : Json :=
  match answer with
  | .obj fields =>
    match dictGet fields "variables" with
    | some (.arr redacted) =>
      .obj (dictSet (scrubWithout "variables" fields) "variables"
        (.arr ((envEntries redacted raw).map hideEnvValue)))
    | _ => hideAll answer
  | _ => hideAll answer

def hideSecretValues (opId : String) (plainFields : List String) (answer raw : Json) : Json :=
  if opId = "vault.kv.read" then hideKvData answer
  else if opId = "vmware.composite.vm.guest.env.read" then hideEnvValues answer raw
  else (scrubSecretNamedKeys true plainFields answer).1

/-! ## Fingerprints -/

section Fingerprints
variable (tools : RedactionTools)

def fingerprintValue (value : Json) : Json :=
  .str (fingerprintPrefix ++ tools.auditDigest value ++ "]")

/-- Two values of one type that are equal and hold nothing inside. NaN is not equal to itself. -/
def sameScalar : Json → Json → Bool
  | .null, .null => true
  | .bool a, .bool b => a = b
  | .int a, .int b => a = b
  | .float a, .float b => a = b && a ≠ "nan"
  | .str a, .str b => a = b
  | _, _ => false

mutual
/-- `none` is a value that the default view does not have. -/
def fingerprintHiddenValues : Json → Option Json → Json
  | .obj fields, some (.obj shown) => .obj (fingerprintFields shown fields)
  | .arr items, some (.arr shown) =>
    if items.length = shown.length then .arr (fingerprintItems items shown)
    else fingerprintValue tools (.arr items)
  | raw, some shown => if sameScalar raw shown then raw else fingerprintValue tools raw
  | raw, none => fingerprintValue tools raw

def fingerprintFields (shown : Dict) : Dict → Dict
  | [] => []
  | (key, value) :: fields =>
    (key, fingerprintHiddenValues value (dictGet shown key)) :: fingerprintFields shown fields

def fingerprintItems : List Json → List Json → List Json
  | item :: items, other :: shown =>
    fingerprintHiddenValues item (some other) :: fingerprintItems items shown
  | _, _ => []
end

end Fingerprints

mutual
/-- The paths of the fingerprints in a stored answer. -/
def fingerprintedPaths (path : String) : Json → List String
  | .str text => if fingerprintPrefix.toList.isPrefixOf text.toList then [path] else []
  | .obj fields => fingerprintedFields path fields
  | .arr items => fingerprintedItems path 0 items
  | _ => []

def fingerprintedFields (path : String) : Dict → List String
  | [] => []
  | (key, value) :: fields =>
    fingerprintedPaths (joinPath path key) value ++ fingerprintedFields path fields

def fingerprintedItems (path : String) (index : Nat) : List Json → List String
  | [] => []
  | item :: items =>
    fingerprintedPaths (joinPath path (toString index)) item ++
      fingerprintedItems path (index + 1) items
end

/-! ## Error envelopes -/

def canHoldSecret (hideNumbers : Bool) : Json → Bool
  | .str text => !FieldScan.isPlaceholder text.toList
  | .int _ | .float _ => hideNumbers
  | .obj _ | .arr _ => true
  | .null | .bool _ => false

section SecretFields
variable (hideNumbers : Bool)

mutual
/-- The value with every secret-named value replaced, in its texts too. -/
def scrubSecretFields : Json → Json
  | .obj fields => .obj (scrubMembers (isSecretNameValuePair [] fields) fields)
  | .arr items => .arr (scrubElements items)
  | .str text => .str (String.ofList (FieldScan.scrubSecretFieldsInText text.toList))
  | node => node

def scrubMembers (hidePairValue : Bool) : Dict → Dict
  | [] => []
  | (key, value) :: fields =>
    (key, if secretNamed hidePairValue key && canHoldSecret hideNumbers value then .str redactedParam
      else scrubSecretFields value) :: scrubMembers hidePairValue fields

def scrubElements : List Json → List Json
  | [] => []
  | item :: items => scrubSecretFields item :: scrubElements items
end

end SecretFields

/-- The full cleanup of errors, under the packaged policy; `none` when it raises. -/
def redactErrorPayload (tools : RedactionTools) (registry : PolicyRegistry) (node : Json) :
    Option Json :=
  if tools.errorCleanupRaises node then none
  else some (redact tools (scrubSecretFields false node) registry.default ⟨none, none, none⟩).1

/-! ## The row -/

/-- The row of the answer, or of a multi-step operation's error envelope. -/
inductive AnswerKind where
  | success
  | compositeError
  deriving DecidableEq, Repr

/-- What the dispatcher knows of a call when it writes the row. -/
structure DispatchedCall where
  auditId : Nat
  opId : String
  connectorId : String
  /-- The descriptor's implementation id. -/
  implId : String
  tenantId : String
  plainFields : List String
  kind : AnswerKind

/-- The labels that the middleware passes. -/
def DispatchedCall.labels (call : DispatchedCall) : CallLabels :=
  ⟨some call.connectorId, some call.tenantId, some call.opId⟩

structure AuditRow where
  id : Nat
  tenantId : String
  payload : Dict
  rawPayload : Option Json
  redactionManifest : Option (List RedactionManifestEntry)

/-- What the redaction boundary returns. -/
structure BoundaryResult where
  raw : Json
  redacted : Json
  manifest : List RedactionManifestEntry
  policyId : String

section Row
variable (tools : RedactionTools) (registry : PolicyRegistry) (classifyOp : String → String)
  (call : DispatchedCall) (raw : Json)

def appliedPolicy : RedactionPolicy := resolvePolicy registry call.labels

/-- The second tier of the policy, over what the first one left. -/
def tier2Result : Json × List RedactionManifestEntry :=
  let policy := appliedPolicy registry call
  let tier1 := redact tools raw policy call.labels
  if policy.tier2.isEmpty then (tier1.1, []) else tools.applyTier2 policy call.labels tier1.1

def boundaryRedaction : BoundaryResult where
  raw :=
    if classifyOp call.opId = "credential_mint" then (scrubSecretNamedKeys false [] raw).1 else raw
  redacted := (tier2Result tools registry call raw).1
  manifest :=
    (redact tools raw (appliedPolicy registry call) call.labels).2 ++
      (tier2Result tools registry call raw).2
  policyId := (appliedPolicy registry call).id

/-- When the cleanup of an error envelope fails, its copy is one fingerprint. -/
def storedCopy : Json :=
  let redaction := boundaryRedaction tools registry classifyOp call raw
  let shown := hideSecretValues call.opId call.plainFields redaction.redacted redaction.raw
  match call.kind with
  | .success => fingerprintHiddenValues tools redaction.raw (some shown)
  | .compositeError =>
    match redactErrorPayload tools registry redaction.redacted,
      redactErrorPayload tools registry shown with
    | some _, some shown => fingerprintHiddenValues tools redaction.raw (some shown)
    | _, _ => fingerprintValue tools redaction.raw

/-- A null answer is a row without one. -/
def auditRow : AuditRow where
  id := call.auditId
  tenantId := call.tenantId
  payload :=
    [("op_id", .str call.opId), ("connector_impl_id", .str call.implId),
      ("redaction_policy_id", .str (appliedPolicy registry call).id)]
  rawPayload :=
    match storedCopy tools registry classifyOp call raw with
    | .null => none
    | stored => some stored
  redactionManifest := some (boundaryRedaction tools registry classifyOp call raw).manifest

end Row

end Meho.Redaction
