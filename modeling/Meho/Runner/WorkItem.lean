import Meho.Approval.Model
import Meho.Lib.JsonText
import Meho.Policy.Names

/- What the centre and the runner share about a remote work item
(runner/satellite_tier.py, runner/work_item_signing.py).

Both sides classify an operation into the same tiers, check the same allowlist,
and build the same text of an item: the centre signs it when it mints, the
runner verifies it before it runs. SHA-256, Ed25519 and the parsing of a key
are not part of the repository; they are the fields of `Crypto`. Nothing is
assumed about them here.

The signed text names the operation, the digest of the params, the id of the
target and the deadline, and it determines all four
(`remoteWriteSigningBytes_inj`).

Correspondence: `_entry_admits` ↔ `AllowEntry.admits`; what is not listed keeps its
name. -/
namespace Meho.Runner
open Meho.Lib
open Meho.Approval (Params)
open Meho.Policy (fnmatchcase quoted)

inductive SatelliteMintTier where
  | safe
  | remoteWrite
  | excluded
  deriving DecidableEq, Repr

/-- The tier of an operation. `isSafeWrite` are the operations that connectors mark as safe
writes; a level that is not named is excluded. -/
def classifySatelliteTier (isSafeWrite : String → Bool) (safetyLevel opId : String) :
    SatelliteMintTier :=
  if safetyLevel = "safe" then if isSafeWrite opId then .excluded else .safe
  else if safetyLevel = "caution" then .remoteWrite
  else .excluded

/-! ## The allowlist of a runner -/

/-- One entry: a glob over op ids, and one over the scopes of targets. -/
structure AllowEntry where
  opPattern : String
  targetScope : String

/-- The scope of a call without a target. -/
def targetlessScope : String := ""

/-- `str.isspace`. -/
def isSpace (c : Char) : Bool :=
  (9 ≤ c.toNat && c.toNat ≤ 13) || (28 ≤ c.toNat && c.toNat ≤ 32) ||
    (0x2000 ≤ c.toNat && c.toNat ≤ 0x200a) ||
    [0x85, 0xa0, 0x1680, 0x2028, 0x2029, 0x202f, 0x205f, 0x3000].contains c.toNat

/-- `str.strip`. -/
def strip (text : List Char) : List Char :=
  ((text.dropWhile isSpace).reverse.dropWhile isSpace).reverse

/-- One token of the runner's configuration. -/
def parseAllowEntry (token : List Char) : Option AllowEntry :=
  let spec := strip token
  if spec.isEmpty then none
  else
    let opPattern := strip (spec.takeWhile (· ≠ '@'))
    if opPattern.isEmpty then none
    else
      let scope :=
        if spec.contains '@' then strip ((spec.dropWhile (· ≠ '@')).drop 1) else ['*']
      some ⟨String.ofList opPattern, if scope.isEmpty then "*" else String.ofList scope⟩

def parseRunnerAllowlist (raw : String) : List AllowEntry :=
  (raw.toList.splitOn ',').filterMap parseAllowEntry

def AllowEntry.admits (entry : AllowEntry) (opId targetScope : String) : Bool :=
  fnmatchcase opId entry.opPattern && fnmatchcase targetScope entry.targetScope

def unprovisionedReason : String :=
  "the composed write-path gate (per-runner allowlist + approval/policy binding) is not " ++
    "provisioned; no runner is authorised for the remote-write tier"

/-- Whether the allowlist covers the operation on the target; if not, why. -/
def evaluateRemoteWriteGate (opId : String) (allowlist : List AllowEntry) (targetScope : String)
    (runnerId : Option String) : Except String Unit :=
  if allowlist.any fun entry => entry.admits opId targetScope then .ok ()
  else
    let subject := "remote-write op " ++ quoted opId ++
      match runnerId with
      | some runnerId => " for runner " ++ quoted runnerId
      | none => ""
    if allowlist.isEmpty then .error (subject ++ " refused: " ++ unprovisionedReason)
    else
      .error (subject ++ " refused: op-class + target (scope " ++ quoted targetScope ++
        ") is not on this runner's remote-write allowlist")

theorem evaluateRemoteWriteGate_ok {opId targetScope : String} {allowlist : List AllowEntry}
    {runnerId : Option String}
    (h : evaluateRemoteWriteGate opId allowlist targetScope runnerId = .ok ()) :
    ∃ entry ∈ allowlist, entry.admits opId targetScope = true := by
  unfold evaluateRemoteWriteGate at h
  split at h
  · rename_i hany
    exact List.any_eq_true.mp hany
  · simp only at h
    split at h <;> cases h

/-! ## The text of params -/

mutual
/-- The value with the entries of every mapping in the order of their keys. -/
def sortKeys : Json → Json
  | .arr items => .arr (sortItems items)
  | .obj fields => .obj ((sortFields fields).mergeSort fun a b => a.1 ≤ b.1)
  | value => value

def sortItems : List Json → List Json
  | [] => []
  | value :: items => sortKeys value :: sortItems items

def sortFields : Dict → Dict
  | [] => []
  | (key, value) :: fields => (key, sortKeys value) :: sortFields fields
end

mutual
/-- `json.dumps` with tight separators. -/
def dumps : Json → List Char
  | .null => "null".toList
  | .bool b => (if b then "true" else "false").toList
  | .int i => (toString i).toList
  | .float text => text.toList
  | .str s => jsonString s
  | .arr items => '[' :: (dumpItems items ++ [']'])
  | .obj fields => '\x7b' :: (dumpFields fields ++ ['\x7d'])

def dumpItems : List Json → List Char
  | [] => []
  | [value] => dumps value
  | value :: items => dumps value ++ ',' :: dumpItems items

def dumpFields : Dict → List Char
  | [] => []
  | [(key, value)] => jsonString key ++ ':' :: dumps value
  | (key, value) :: fields => jsonString key ++ ':' :: (dumps value ++ ',' :: dumpFields fields)
end

/-- The canonical text of params. -/
def canonicalParams (params : Params) : List Char := dumps (sortKeys (.obj params))

/-! ## Time -/

/-- The date of a day, counted from 1970-01-01. -/
def civilDate (days : Int) : Int × Int × Int :=
  let z := days + 719468
  let era := Int.fdiv z 146097
  let dayOfEra := z - era * 146097
  let yearOfEra :=
    (dayOfEra - dayOfEra / 1460 + dayOfEra / 36524 - dayOfEra / 146096) / 365
  let dayOfYear := dayOfEra - (365 * yearOfEra + yearOfEra / 4 - yearOfEra / 100)
  let m := (5 * dayOfYear + 2) / 153
  let month := if m < 10 then m + 3 else m - 9
  let year := yearOfEra + era * 400
  (if month ≤ 2 then year + 1 else year, month, dayOfYear - (153 * m + 2) / 5 + 1)

example : civilDate 0 = (1970, 1, 1) ∧ civilDate 19782 = (2024, 2, 29) := by decide

/-- A number with leading zeros. -/
def padded (width : Nat) (n : Int) : String :=
  let digits := toString n
  String.ofList (List.replicate (width - digits.length) '0') ++ digits

/-- The ISO text of an instant, in UTC. -/
def canonicalExpiresAt (t : Time) : String :=
  let secs := Int.fdiv t 1000000
  let micros := t - secs * 1000000
  let days := Int.fdiv secs 86400
  let ofDay := secs - days * 86400
  let (year, month, day) := civilDate days
  padded 4 year ++ "-" ++ padded 2 month ++ "-" ++ padded 2 day ++ "T" ++
    padded 2 (ofDay / 3600) ++ ":" ++ padded 2 (ofDay / 60 % 60) ++ ":" ++
    padded 2 (ofDay % 60) ++ (if micros = 0 then "" else "." ++ padded 6 micros) ++ "+00:00"

/-! ## Signatures -/

/-- The cryptography both sides use. A signature is its base64 text; reading a key from its
base64 text may fail with a text of its own. -/
structure Crypto where
  sha256 : List Char → String
  SigningKey : Type
  VerifyKey : Type
  sign : SigningKey → List Char → String
  verify : VerifyKey → String → List Char → Bool
  readSigningKey : String → Except String SigningKey
  readVerifyKey : String → Except String VerifyKey

variable (C : Crypto)

def paramsDigest (params : Params) : String := C.sha256 (canonicalParams params)

/-- The text that is signed. -/
def remoteWriteSigningBytes (opId paramsHash targetScope : String) (expiresAt : Time) :
    List Char :=
  "\x7b\"expires_at\":".toList ++ (jsonString (canonicalExpiresAt expiresAt) ++
    (",\"op_id\":".toList ++ (jsonString opId ++
      (",\"params_hash\":".toList ++ (jsonString paramsHash ++
        (",\"target_scope\":".toList ++ (jsonString targetScope ++
          ",\"v\":1\x7d".toList)))))))

/-- The signed text determines what it names. -/
theorem remoteWriteSigningBytes_inj {opId opId' paramsHash paramsHash' scope scope' : String}
    {expiresAt expiresAt' : Time}
    (h : remoteWriteSigningBytes opId paramsHash scope expiresAt =
      remoteWriteSigningBytes opId' paramsHash' scope' expiresAt') :
    opId = opId' ∧ paramsHash = paramsHash' ∧ scope = scope' ∧
      canonicalExpiresAt expiresAt = canonicalExpiresAt expiresAt' := by
  unfold remoteWriteSigningBytes at h
  obtain ⟨hexpires, h⟩ := jsonString_append_inj (List.append_cancel_left h)
  obtain ⟨hop, h⟩ := jsonString_append_inj (List.append_cancel_left h)
  obtain ⟨hhash, h⟩ := jsonString_append_inj (List.append_cancel_left h)
  obtain ⟨hscope, -⟩ := jsonString_append_inj (List.append_cancel_left h)
  exact ⟨hop, hhash, hscope, hexpires⟩

/-- A configured key. One that is not set is refused before anything reads it. -/
def decodeKey {α : Type} (role : String) (read : String → Except String α) (raw : String) :
    Except String α :=
  if raw = "" then
    .error ("satellite-write " ++ role ++ " key is not provisioned (remote-write capabilities " ++
      "are refused fail-closed)")
  else read raw

def loadSigningKey (raw : String) : Except String C.SigningKey :=
  decodeKey "signing" C.readSigningKey raw

def loadVerifyKey (raw : String) : Except String C.VerifyKey :=
  decodeKey "verification" C.readVerifyKey raw

def signRemoteWriteItem (key : C.SigningKey) (opId paramsHash targetScope : String)
    (expiresAt : Time) : String :=
  C.sign key (remoteWriteSigningBytes opId paramsHash targetScope expiresAt)

def verifyRemoteWriteItem (key : C.VerifyKey) (signature opId paramsHash targetScope : String)
    (expiresAt : Time) : Bool :=
  C.verify key signature (remoteWriteSigningBytes opId paramsHash targetScope expiresAt)

end Meho.Runner
