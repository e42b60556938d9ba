import Meho.Runner.CanonicalText

/- The runner's executor (runner/executor.py, runner/wire.py).

A work item carries everything the runner needs to pick a handler and a
target. The runner screens it before it imports anything: the package set, the
tier of its level, and for a remote write the signature with the deadline, its
own allowlist, and the kind of its credential. Only then is the handler found
and called. `executeWorkItem` ends with a result, or with the call of a handler
(`Invocation`).

The signature covers the operation, the digest of the params, the id of the
target and the deadline. `signed_item_bound`: a remote write whose operation,
params or target id differ from what was signed calls no handler. What the
signature does not cover is not bound by it: `host_change_runs`.

What the runner's own process provides is in `RunnerEnv`: the clock, the
settings, the package set, what an import finds, and the connector registry.

Correspondence: each function keeps its name. -/
namespace Meho.Runner
open Meho.Lib
open Meho.Approval (Params)
open Meho.Policy (quoted)

/-! ## The wire -/

/-- `ResolvedTargetDescriptor`. -/
structure ResolvedTargetDescriptor where
  id : Nat
  tenantId : Nat
  name : String
  aliases : List String
  product : String
  version : Option String
  fingerprint : Option Dict
  preferredImplId : Option String
  host : String
  port : Option Int
  fqdn : Option String
  secretRef : Option String
  authModel : String
  verifyTls : Bool
  tlsCaPin : Option String
  tlsServerName : Option String
  secretFieldMap : List (String × String)
  extras : Dict
  updatedAt : Option Time

/-- `RunnerPrincipal`: who the operation runs as. -/
structure PrincipalContext where
  sub : String
  tenantId : Nat
  tenantRole : TenantRole
  principalKind : PrincipalKind

structure RunnerWorkItem where
  checkRef : String
  opId : String
  product : String
  version : String
  implId : String
  handlerRef : String
  params : Params
  safetyLevel : String
  principal : PrincipalContext
  targetDescriptor : Option ResolvedTargetDescriptor
  signature : Option String
  expiresAt : Option Time
  packageSet : Option String

structure RunnerResult where
  resultUid : String
  checkRef : String
  opId : String
  status : String
  result : Option Dict
  error : Option String

/-- The scope the runner works out for itself. -/
def RunnerWorkItem.targetScope (item : RunnerWorkItem) : String :=
  match item.targetDescriptor with
  | some target => toString target.id
  | none => targetlessScope

/-! ## The runner's process -/

/-- What an import finds: a callable and the module it comes from. -/
structure Handler where
  name : String
  module : String

/-- The runner's clock, keys and imports, as the executor finds them. -/
structure RunnerEnv where
  now : Time
  verifyKey : String
  writeAllowlist : String
  packageSetDigest : String
  isSafeWrite : String → Bool
  importHandler : String → Except String Handler
  connector : String → String → String → Option String
  isUnboundMethod : Handler → String → Bool
  uid : String

/-- A call of a handler: on which connector instance, as whom, against what. -/
structure Invocation where
  handler : Handler
  boundTo : Option String
  principal : PrincipalContext
  target : Option ResolvedTargetDescriptor
  params : Params

def RunnerEnv.result (env : RunnerEnv) (item : RunnerWorkItem) (status : String)
    (payload : Option Dict) (error : Option String) : RunnerResult :=
  ⟨env.uid, item.checkRef, item.opId, status, payload, error⟩

/-! ## The screen -/

def packageSetRefusal (env : RunnerEnv) (item : RunnerWorkItem) : Option String :=
  match item.packageSet with
  | none => none
  | some needed =>
    if needed = env.packageSetDigest then none
    else some ("connector_package_set_mismatch: the work item needs connector package set " ++
      needed ++ ", the runner has " ++ env.packageSetDigest ++ ": run the runner on an image " ++
      "with the same connector packages as the central MEHO")

variable (C : Crypto)

/-- Why the signature of a remote write does not hold. -/
def verifyRemoteWriteSignature (env : RunnerEnv) (item : RunnerWorkItem) : Option String :=
  let refused := "remote-write op " ++ quoted item.opId ++ " refused"
  match item.signature.filter (· ≠ "") with
  | none =>
    some (refused ++ ": work item is unsigned; the caution tier requires " ++
      "a centrally-signed capability")
  | some signature =>
    match item.expiresAt with
    | none => some (refused ++ ": signed work item carries no expires_at freshness bound")
    | some expiresAt =>
      match loadVerifyKey C env.verifyKey with
      | .error text => some (refused ++ ": " ++ text)
      | .ok key =>
        if verifyRemoteWriteItem C key signature item.opId (paramsDigest C item.params)
          item.targetScope expiresAt then
          if expiresAt ≤ env.now then
            some (refused ++ ": signed capability expired at " ++ canonicalExpiresAt expiresAt)
          else none
        else
          some (refused ++ ": signature verification failed " ++
            "(tampered op/params, out-of-scope target, or wrong key)")

/-- `wrapped:<token>`. -/
def isWrappedCredentialRef (secretRef : Option String) : Bool :=
  match secretRef with
  | none => false
  | some secretRef =>
    let chars := secretRef.toList
    chars.takeWhile (· ≠ ':') = "wrapped".toList && chars.contains ':' &&
      !((chars.dropWhile (· ≠ ':')).drop 1).isEmpty

def screenRemoteWriteCredential (target : Option ResolvedTargetDescriptor) : Option String :=
  if isWrappedCredentialRef (target.bind (·.secretRef)) then none
  else
    some ("remote-write item refused: it must carry a per-work-item single-use " ++
      "wrapped credential (wrapped:<token>), not a standing " ++
      "broad credential; no standing runner credential is permitted on the " ++ "write tier")

def connectorModule : String := "meho_backplane.connectors."

/-- `text.startswith(connectorModule)`. -/
def inConnectorTree (text : String) : Bool := connectorModule.toList.isPrefixOf text.toList

/-- The checks of the remote-write tier, in order. -/
def screenRemoteWrite (env : RunnerEnv) (item : RunnerWorkItem) : Option String :=
  match verifyRemoteWriteSignature C env item with
  | some reason => some reason
  | none =>
    match evaluateRemoteWriteGate item.opId (parseRunnerAllowlist env.writeAllowlist)
      item.targetScope none with
    | .error reason => some reason
    | .ok () => screenRemoteWriteCredential item.targetDescriptor

/-- The handler must come from the connector tree, by its name. -/
def screenHandlerRef (item : RunnerWorkItem) : Option String :=
  if inConnectorTree item.handlerRef then none
  else some ("handler_ref " ++ quoted item.handlerRef ++ " is outside " ++ connectorModule ++ "*")

/-- Why the item is refused before anything is imported. -/
def screenItem (env : RunnerEnv) (item : RunnerWorkItem) : Option String :=
  match classifySatelliteTier env.isSafeWrite item.safetyLevel item.opId with
  | .excluded =>
    some ("safety_level " ++ quoted item.safetyLevel ++ " refused; dangerous/destructive " ++
      "ops and safe writes are never dispatched to a runner")
  | .remoteWrite =>
    match screenRemoteWrite C env item with
    | some reason => some reason
    | none => screenHandlerRef item
  | .safe => screenHandlerRef item

/-! ## The call -/

/-- A method is bound to the instance of the item's connector; a function is left as it is. -/
def maybeBindMethod (env : RunnerEnv) (item : RunnerWorkItem) (handler : Handler) :
    Option String :=
  (env.connector item.product item.version item.implId).filter fun cls =>
    env.isUnboundMethod handler cls

/-- The result of an item that calls no handler, or the call. -/
def executeWorkItem (env : RunnerEnv) (item : RunnerWorkItem) : Except RunnerResult Invocation :=
  match (packageSetRefusal env item).orElse fun _ => screenItem C env item with
  | some reason => .error (env.result item "refused" none (some reason))
  | none =>
    match env.importHandler item.handlerRef with
    | .error text => .error (env.result item "error" none (some ("handler_unresolved: " ++ text)))
    | .ok handler =>
      if inConnectorTree handler.module then
        .ok ⟨handler, maybeBindMethod env item handler, item.principal, item.targetDescriptor,
          item.params⟩
      else
        .error (env.result item "refused" none (some ("handler_ref " ++ quoted item.handlerRef ++
          " resolved outside " ++ connectorModule ++ "*")))

/-- How a handler ends. -/
inductive HandlerOutcome where
  | returned (payload : Json)
  | raised (exceptionName text : String)

/-- `type(value).__name__`. -/
def typeName : Json → String
  | .null => "NoneType"
  | .bool _ => "bool"
  | .int _ => "int"
  | .float _ => "float"
  | .str _ => "str"
  | .arr _ => "list"
  | .obj _ => "dict"

/-- The result of a call. A handler that raises is a result too. -/
def invoke (env : RunnerEnv) (item : RunnerWorkItem) : HandlerOutcome → RunnerResult
  | .raised exceptionName text =>
    env.result item "error" none (some (exceptionName ++ ": " ++ text))
  | .returned (.obj payload) => env.result item "ok" (some payload) none
  | .returned payload =>
    env.result item "error" none (some ("handler returned non-dict " ++ typeName payload))

/-! ## What a signature binds -/

/-- The centre signed the item under the deadline it carries. -/
def SignedBy (key : C.SigningKey) (item : RunnerWorkItem) : Prop :=
  ∃ expiresAt, item.expiresAt = some expiresAt ∧
    item.signature = some (signRemoteWriteItem C key item.opId (paramsDigest C item.params)
      item.targetScope expiresAt)

/-- A signature of the centre verifies, under the runner's key, for the text it was made for and
for no other. -/
def Unforgeable (key : C.SigningKey) (env : RunnerEnv) : Prop :=
  ∀ verifyKey, loadVerifyKey C env.verifyKey = .ok verifyKey →
    ∀ text text', C.verify verifyKey (C.sign key text) text' = true → text' = text

/-- The two items ask for different things: another operation, other params, another target. -/
def Differs (item item' : RunnerWorkItem) : Prop :=
  item'.opId ≠ item.opId ∨ sortedParams item'.params ≠ sortedParams item.params ∨
    item'.targetDescriptor.map (·.id) ≠ item.targetDescriptor.map (·.id)

theorem toString_nat_inj {m n : Nat} (h : toString m = toString n) : m = n := by
  have hdigits := congrArg String.toList h
  rw [Nat.toString_eq_repr, Nat.toString_eq_repr, Nat.toList_repr, Nat.toList_repr] at hdigits
  exact toDigits_inj hdigits

/-- The scope names the target. -/
theorem targetScope_inj {item item' : RunnerWorkItem} (h : item'.targetScope = item.targetScope) :
    item'.targetDescriptor.map (·.id) = item.targetDescriptor.map (·.id) := by
  have hne : ∀ n : Nat, toString n ≠ targetlessScope := by
    intro n
    rw [Nat.toString_eq_repr]
    exact Nat.repr_ne_empty
  unfold RunnerWorkItem.targetScope at h
  cases ht : item.targetDescriptor with
  | none =>
    cases ht' : item'.targetDescriptor with
    | none => rfl
    | some target' =>
      rw [ht, ht'] at h
      exact absurd h (hne target'.id)
  | some target =>
    cases ht' : item'.targetDescriptor with
    | none =>
      rw [ht, ht'] at h
      exact absurd h.symm (hne target.id)
    | some target' =>
      rw [ht, ht'] at h
      simp [toString_nat_inj h]

variable {C}

/-- A signature that passes verifies for the item as it arrived. -/
theorem verifyRemoteWriteSignature_none {env : RunnerEnv} {item : RunnerWorkItem}
    (h : verifyRemoteWriteSignature C env item = none) :
    ∃ signature expiresAt key, item.signature = some signature ∧
      item.expiresAt = some expiresAt ∧ loadVerifyKey C env.verifyKey = .ok key ∧
      verifyRemoteWriteItem C key signature item.opId (paramsDigest C item.params)
        item.targetScope expiresAt = true ∧ env.now < expiresAt := by
  unfold verifyRemoteWriteSignature at h
  simp only at h
  split at h
  · cases h
  · rename_i signature hsignature
    split at h
    · cases h
    · rename_i expiresAt hexpires
      split at h
      · cases h
      · rename_i key hkey
        split at h
        · rename_i hverified
          split at h
          · cases h
          · rename_i hfresh
            have hsome : item.signature = some signature := (Option.filter_eq_some_iff.mp hsignature).1
            exact ⟨signature, expiresAt, key, hsome, hexpires, hkey, hverified, not_le.mp hfresh⟩
        · cases h

/-- A signature passes only on what it was made for. -/
theorem signature_binds {env : RunnerEnv} {key : C.SigningKey} {item item' : RunnerWorkItem}
    (hsha : Function.Injective C.sha256) (hforge : Unforgeable C key env)
    (hsigned : SignedBy C key item) (hkept : item'.signature = item.signature)
    (hfloats : wellFormedFields item.params = true)
    (hfloats' : wellFormedFields item'.params = true)
    (h : verifyRemoteWriteSignature C env item' = none) : ¬Differs item item' := by
  obtain ⟨signature, expiresAt', verifyKey, hsignature, -, hkey, hverified, -⟩ :=
    verifyRemoteWriteSignature_none h
  obtain ⟨expiresAt, -, hmade⟩ := hsigned
  rw [hkept, hmade] at hsignature
  obtain rfl := Option.some.inj hsignature
  have htext := hforge verifyKey hkey _ _ hverified
  obtain ⟨hop, hdigest, hscope, -⟩ := remoteWriteSigningBytes_inj htext
  rintro (hdiff | hdiff | hdiff)
  · exact hdiff hop
  · exact hdiff (canonicalParams_inj hfloats' hfloats (hsha hdigest))
  · exact hdiff (targetScope_inj hscope)

/-- **A signed remote write is bound to what was signed.** Under an unforgeable signature and a
collision-free digest, an item that arrives at the caution level with the signature of an
item the centre signed, and that differs from that item in operation, params or target id,
is refused and calls no handler, whatever its other fields are. -/
theorem signed_item_bound {env : RunnerEnv} {key : C.SigningKey} {item item' : RunnerWorkItem}
    (hsha : Function.Injective C.sha256) (hforge : Unforgeable C key env)
    (hsigned : SignedBy C key item) (hkept : item'.signature = item.signature)
    (hlevel : item'.safetyLevel = "caution") (hfloats : wellFormedFields item.params = true)
    (hfloats' : wellFormedFields item'.params = true) (hdiffers : Differs item item') :
    ∃ reason, executeWorkItem C env item' =
      .error (env.result item' "refused" none (some reason)) := by
  have hscreened : ∃ reason, screenItem C env item' = some reason := by
    have htier : classifySatelliteTier env.isSafeWrite item'.safetyLevel item'.opId =
        .remoteWrite := by
      rw [hlevel]
      rfl
    unfold screenItem screenRemoteWrite
    rw [htier]
    cases hverify : verifyRemoteWriteSignature C env item' with
    | some reason => exact ⟨reason, rfl⟩
    | none =>
      exact absurd hdiffers
        (signature_binds hsha hforge hsigned hkept hfloats hfloats' hverify)
  obtain ⟨reason, hscreened⟩ := hscreened
  unfold executeWorkItem
  cases hpackage : packageSetRefusal env item' with
  | some refusal => exact ⟨refusal, rfl⟩
  | none =>
    refine ⟨reason, ?_⟩
    simp [hscreened]

/-! ## One item -/

/-- A cryptography whose digest is the text itself and whose signature is the text itself. -/
def plainCrypto : Crypto where
  sha256 := String.ofList
  SigningKey := Unit
  VerifyKey := Unit
  sign := fun _ text => String.ofList text
  verify := fun _ signature text => signature = String.ofList text
  readSigningKey := fun _ => .ok ()
  readVerifyKey := fun _ => .ok ()

theorem plainCrypto_sha256 : Function.Injective plainCrypto.sha256 := fun _ _ h =>
  String.ofList_injective h

theorem plainCrypto_signed (opId paramsHash targetScope : String) (expiresAt : Time) :
    signRemoteWriteItem plainCrypto () opId paramsHash targetScope expiresAt ≠ "" := by
  intro h
  have htext : remoteWriteSigningBytes opId paramsHash targetScope expiresAt = [] := by
    have hlist := congrArg String.toList h
    simpa only [signRemoteWriteItem, plainCrypto, String.toList_ofList, String.toList_empty]
      using hlist
  unfold remoteWriteSigningBytes at htext
  exact absurd (List.append_eq_nil_iff.mp htext).1 (by decide)

/-- A runner that is set up for remote writes. -/
def smallEnv : RunnerEnv where
  now := 0
  verifyKey := "key"
  writeAllowlist := "net.*"
  packageSetDigest := ""
  isSafeWrite := fun _ => false
  importHandler := fun _ => .ok ⟨"write", "meho_backplane.connectors.net"⟩
  connector := fun _ _ _ => none
  isUnboundMethod := fun _ _ => false
  uid := "1"

theorem plainCrypto_unforgeable : Unforgeable plainCrypto () smallEnv := by
  intro verifyKey _ text text' h
  have htexts : String.ofList text = String.ofList text' := of_decide_eq_true h
  exact (String.ofList_injective htexts).symm

def smallTarget (host : String) : ResolvedTargetDescriptor where
  id := 7
  tenantId := 1
  name := "t"
  aliases := []
  product := "net"
  version := none
  fingerprint := none
  preferredImplId := none
  host := host
  port := none
  fqdn := none
  secretRef := some "wrapped:t"
  authModel := "shared_service_account"
  verifyTls := true
  tlsCaPin := none
  tlsServerName := none
  secretFieldMap := []
  extras := []
  updatedAt := none

/-- A remote write on a target, signed. -/
def smallItem (opId host : String) : RunnerWorkItem where
  checkRef := "c"
  opId := opId
  product := "net"
  version := ""
  implId := ""
  handlerRef := "meho_backplane.connectors.net.write"
  params := []
  safetyLevel := "caution"
  principal := ⟨"svc", 1, .operator, .service⟩
  targetDescriptor := some (smallTarget host)
  signature := some (signRemoteWriteItem plainCrypto () "net.write"
    (paramsDigest plainCrypto []) (toString 7) 1)
  expiresAt := some 1
  packageSet := none

theorem signed_item_bound_op : ∃ reason,
    executeWorkItem plainCrypto smallEnv (smallItem "net.drop" "a") =
      .error (smallEnv.result (smallItem "net.drop" "a") "refused" none (some reason)) := by
  have hsigned : SignedBy plainCrypto () (smallItem "net.write" "a") := ⟨1, rfl, rfl⟩
  have hdiffers : Differs (smallItem "net.write" "a") (smallItem "net.drop" "a") :=
    .inl (by decide)
  exact signed_item_bound plainCrypto_sha256 plainCrypto_unforgeable hsigned rfl rfl rfl rfl
    hdiffers

theorem smallItem_verifies (host : String) :
    verifyRemoteWriteSignature plainCrypto smallEnv (smallItem "net.write" host) = none := by
  have hsigned : (smallItem "net.write" host).signature.filter (· ≠ "") =
      (smallItem "net.write" host).signature :=
    if_pos (decide_eq_true (plainCrypto_signed _ _ _ _))
  unfold verifyRemoteWriteSignature
  rw [hsigned]
  simp [smallItem, smallEnv, loadVerifyKey, decodeKey, plainCrypto, verifyRemoteWriteItem,
    signRemoteWriteItem, RunnerWorkItem.targetScope, smallTarget]

/-- The host of a target is not part of what is signed: the item runs against another one. -/
theorem host_change_runs :
    SignedBy plainCrypto () (smallItem "net.write" "a") ∧
      Unforgeable plainCrypto () smallEnv ∧
      (smallItem "net.write" "b").signature = (smallItem "net.write" "a").signature ∧
      (smallItem "net.write" "b").targetDescriptor.map (·.host) ≠
        (smallItem "net.write" "a").targetDescriptor.map (·.host) ∧
      executeWorkItem plainCrypto smallEnv (smallItem "net.write" "b") =
        .ok ⟨⟨"write", "meho_backplane.connectors.net"⟩, none, ⟨"svc", 1, .operator, .service⟩,
          some (smallTarget "b"), []⟩ := by
  refine ⟨⟨1, rfl, rfl⟩, plainCrypto_unforgeable, rfl, by decide, ?_⟩
  have hscreen : screenItem plainCrypto smallEnv (smallItem "net.write" "b") = none := by
    have htier : classifySatelliteTier smallEnv.isSafeWrite
        (smallItem "net.write" "b").safetyLevel (smallItem "net.write" "b").opId =
        .remoteWrite := rfl
    unfold screenItem screenRemoteWrite
    rw [htier, smallItem_verifies "b"]
    rfl
  unfold executeWorkItem
  rw [hscreen]
  rfl

end Meho.Runner
