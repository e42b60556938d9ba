import Meho.Approval.Park

/- The effect a parked call shows its reviewer, and how the dispatcher parks
(operations/dispatcher.py, operations/_preview.py, operations/composite.py).

The pieces of an effect live in the connectors: the connector's own
resolution, a preview builder, the redaction of echoed params, a permission
preflight. They are outcomes here (`EffectHooks`): each can answer or raise.
Builders and preflights are caught where they are called. A resolution or a
redaction that raises is caught around the whole effect, and then the park has
no effect at all and stores the identifiers only.

Correspondence: `build_proposed_effect` ↔ `buildPreview`, the park of
`enforce_subop_policy` ↔ `enforceSubopPolicy`; what is not listed keeps its name. -/
namespace Meho.Dispatch
open Meho.Approval

/-- The columns of an operation's row that the modelled functions read. -/
structure EndpointDescriptor where
  opId : String
  safetyLevel : SafetyLevel
  requiresApproval : Bool
  method : Option String
  tags : List String
  parameterSchema : Json

/-! ## The proposed effect -/

/-- How a registered hook ends. -/
inductive HookResult where
  | answered (value : Dict)
  | declined
  | raised (reason : String)

/-- How the connector's part of an effect goes. `echo` is the redacted echo of the params, `none`
when the redaction raises. -/
structure EffectHooks where
  resolutionRaises : Bool
  builder : Option HookResult
  echo : Option Dict
  preflight : Option HookResult

/-- `_SENSITIVE_CLASSES`. -/
def sensitiveClasses : List String := ["credential_read", "credential_mint", "credential_write"]

/-- The generic echo of an operation without a builder. Raises when the redaction does. -/
def genericParamsEcho (hooks : EffectHooks) (opClass : String) (params : Params) :
    Except Unit (Option Dict) :=
  if params.isEmpty then .ok none
  else
    match hooks.echo with
    | none => .error ()
    | some echo => .ok (some [("op_class", .str opClass), ("params_echo", .obj echo)])

def previewUnavailableMarker (opClass reason : String) : Dict :=
  [("op_class", .str opClass), ("preview_unavailable", .bool true), ("preview_error", .str reason)]

/-- The preview of a parking call. A builder that raises leaves a marker. -/
def buildPreview (hooks : EffectHooks) (opClass : String) (params : Params) :
    Except Unit (Option Dict) :=
  match hooks.builder with
  | none =>
    if sensitiveClasses.contains opClass then .ok none else genericParamsEcho hooks opClass params
  | some (.raised reason) => .ok (some (previewUnavailableMarker opClass reason))
  | some .declined => .ok none
  | some (.answered preview) => .ok (some [("op_class", .str opClass), ("preview", .obj preview)])

/-- The permission check of a parking call. One that raises is no check. -/
def buildPermissionPreflight (hooks : EffectHooks) : Option Dict :=
  match hooks.preflight with
  | some (.answered preflight) => some preflight
  | _ => none

/-- Whether the reviewer sees a preview, and if not by design, why. -/
def describePreviewProvenance (opClass : String) (preview : Option Dict) : Bool × Option String :=
  let sparse :=
    if sensitiveClasses.contains opClass then "credential_write_redacted"
    else "connector_did_not_populate"
  match preview with
  | none => (false, some sparse)
  | some preview =>
    if dictGet preview "preview_unavailable" matches some (.bool true) then (false, none)
    else if (dictGet preview "preview").isSome || (dictGet preview "params_echo").isSome then
      (true, none)
    else (false, some sparse)

/-- A person's `caution` call that waits only because it came with a token. -/
def waitsOnlyForTokenCall (operator : Operator) (actorSub : Option String)
    (descriptor : EndpointDescriptor) : Bool :=
  isHumanPrincipal operator && !operator.webSession && actorSub.isNone &&
    descriptor.safetyLevel = .caution && !descriptor.requiresApproval

def willBeDenied (preflight : Dict) : Bool :=
  dictGet preflight "will_be_denied" matches some (.bool true)

/-- A call as it gets to a park. -/
structure EffectCall where
  operator : Operator
  actorSub : Option String
  connectorId : String
  descriptor : EndpointDescriptor
  targetId : Option Nat
  params : Params

/-- The preview, the preflight and the preview's provenance. -/
def effectBase (opClass : String) (preview preflight : Option Dict) : Dict :=
  let base := preview.getD []
  let base :=
    match preflight with
    | none => base
    | some preflight =>
      let base := dictSet base "permission_preflight" (.obj preflight)
      if willBeDenied preflight then
        dictSet base "write_capability_warning" (.str "connector_identity_may_lack_write")
      else base
  let provenance := describePreviewProvenance opClass preview
  let base := dictSet base "preview_populated" (.bool provenance.1)
  match provenance.2 with
  | none => base
  | some reason => dictSet base "preview_reason" (.str reason)

/-- The identifiers, unless the preview brought its own, and the operation's class. -/
def withIdentity (c : EffectCall) (opClass : String) (base : Dict) : Dict :=
  dictSetDefault
    ((identifierEffect c.descriptor.opId c.connectorId c.targetId).foldl
      (fun base entry => dictSetDefault base entry.1 entry.2) base)
    "op_class" (.str opClass)

def withTokenWait (c : EffectCall) (base : Dict) : Dict :=
  if waitsOnlyForTokenCall c.operator c.actorSub c.descriptor then
    dictSet base "waits_because" (.str "token_call")
  else base

/-- The preview's blast radius, put on top of the effect. -/
def withBlastRadius (base : Dict) : Dict :=
  match dictGet base "preview" with
  | some (.obj body) =>
    match dictGet body "blast_radius" with
    | some .null => base
    | some block => dictSetDefault base "blast_radius" block
    | none => base
  | _ => base

/-- The effect of a parking call, `none` when something in it raised. -/
def buildProposedEffect (classifyOp : String → String) (hooks : EffectHooks) (c : EffectCall) :
    Option Dict :=
  let opClass := classifyOp c.descriptor.opId
  if hooks.resolutionRaises then none
  else
    match buildPreview hooks opClass c.params with
    | .error () => none
    | .ok preview =>
      let base := effectBase opClass preview (buildPermissionPreflight hooks)
      let base := withIdentity c opClass base
      let base := dictSet base "safety_level" (.str c.descriptor.safetyLevel.value)
      some (withBlastRadius (withTokenWait c base))

/-- The operation has no builder, and the redaction of its params raises. -/
def previewRaises (hooks : EffectHooks) (opClass : String) (params : Params) : Bool :=
  hooks.builder.isNone && !sensitiveClasses.contains opClass && !params.isEmpty &&
    hooks.echo.isNone

/-- Something raises while the effect is built and nothing nearer catches it. -/
def effectRaises (classifyOp : String → String) (hooks : EffectHooks) (c : EffectCall) : Bool :=
  hooks.resolutionRaises || previewRaises hooks (classifyOp c.descriptor.opId) c.params

theorem buildPreview_eq_error (hooks : EffectHooks) (opClass : String) (params : Params) :
    buildPreview hooks opClass params = .error () ↔ previewRaises hooks opClass params = true := by
  unfold buildPreview previewRaises genericParamsEcho
  cases hooks.builder with
  | some result => cases result <;> simp
  | none =>
    cases sensitiveClasses.contains opClass with
    | true => simp
    | false =>
      cases params with
      | nil => simp
      | cons e d => cases hooks.echo <;> simp

/-- The effect is lost exactly when something raised. -/
theorem buildProposedEffect_eq_none (classifyOp : String → String) (hooks : EffectHooks)
    (c : EffectCall) :
    buildProposedEffect classifyOp hooks c = none ↔ effectRaises classifyOp hooks c = true := by
  have hpreview := buildPreview_eq_error hooks (classifyOp c.descriptor.opId) c.params
  simp only [buildProposedEffect, effectRaises, Bool.or_eq_true, ← hpreview]
  cases hooks.resolutionRaises with
  | true => simp
  | false =>
    cases buildPreview hooks (classifyOp c.descriptor.opId) c.params with
    | ok preview => simp
    | error e => simp

theorem dictGet_withBlastRadius_ne {key : String} (h : key ≠ "blast_radius") (base : Dict) :
    dictGet (withBlastRadius base) key = dictGet base key := by
  unfold withBlastRadius
  repeat' split
  all_goals first
    | rfl
    | exact dictGet_dictSetDefault_ne h _ _

theorem dictGet_withTokenWait_ne {key : String} (h : key ≠ "waits_because") (c : EffectCall)
    (base : Dict) : dictGet (withTokenWait c base) key = dictGet base key := by
  unfold withTokenWait
  split
  · exact dictGet_dictSet_ne h _ _
  · rfl

variable {c : EffectCall}

/-- An effect that was built names the operation's own risk level. -/
theorem buildProposedEffect_safetyLevel {classifyOp : String → String} {hooks : EffectHooks}
    {effect : Dict} (h : buildProposedEffect classifyOp hooks c = some effect) :
    dictGetStr effect "safety_level" = some c.descriptor.safetyLevel.value := by
  simp only [buildProposedEffect] at h
  split at h
  · cases h
  · split at h
    · cases h
    · cases h
      unfold dictGetStr
      rw [dictGet_withBlastRadius_ne (by decide), dictGet_withTokenWait_ne (by decide),
        dictGet_dictSet]
      rfl

/-! ## What a park checks -/

/-- What the preview of the identical call answers now. -/
structure PreviewAnswer where
  status : String
  hash : String

/-- Why a call may not wait for approval. -/
inductive ParkRefusal where
  | refusedBeforeApproval (reason : String)
  | ingestedOpsNotAccepted (message : String)
  | resolutionRaised
  | previewBindingRequired (reason : String)
  | previewHashMismatch
  | blastRadiusRequired (reason : String)
  | writeCapabilityDenied (preflight : Dict)

/-- Why an effect states no blast radius, `none` when it states one. -/
def blastRadiusMissingReason (effect : Option Dict) : Option String :=
  let effect := effect.getD []
  if effect.isEmpty then some "proposed_effect is empty (no blast-radius statement)"
  else
    match dictGet effect "blast_radius" with
    | some (.obj block) =>
      if !((dictGet block "object").map Json.truthy).getD false then
        some "blast_radius.object (object identity) is missing"
      else if !((dictGet block "children") matches some (.arr _)) then
        some "blast_radius.children (enumerated child objects) must be a list"
      else if (dictGetStr block "irreversibility").getD "" = "" then
        some "blast_radius.irreversibility (irreversibility class) is missing"
      else none
    | _ =>
      match dictGetStr effect "preview_error" with
      | some error =>
        if error = "" then some "proposed_effect.blast_radius block is absent"
        else some ("the preview builder failed: " ++ error)
      | none => some "proposed_effect.blast_radius block is absent"

/-- Why a destructive call may not wait: no preview to bind, another preview, or no blast
radius. -/
def destructiveBindingRefusal (previewHash : Option String) (preview : PreviewAnswer)
    (effect : Option Dict) : Option ParkRefusal :=
  if previewHash.getD "" = "" then
    some (.previewBindingRequired ("safety_level=destructive requires a preview_hash from a prior " ++
      "preview_operation of the identical (connector_id, op_id, target, params) — none was presented"))
  else if preview.status ≠ "ok" then
    some (.previewBindingRequired ("safety_level=destructive requires a resolvable preview to bind, " ++
      "but preview_operation returned status='" ++ preview.status ++
      "' for this (connector_id, op_id, target, params)"))
  else if some preview.hash ≠ previewHash then some .previewHashMismatch
  else (blastRadiusMissingReason effect).map .blastRadiusRequired

/-- A park whose preflight says the write will be denied is refused. -/
def preflightDeniedRefusal (effect : Option Dict) : Option ParkRefusal :=
  match (effect.bind fun e => dictGet e "permission_preflight") with
  | some (.obj preflight) =>
    if willBeDenied preflight then some (.writeCapabilityDenied preflight) else none
  | _ => none

/-- What a park reads from its context: the operation's own check before the wait, whether the
target takes ingested operations (`none` when asking raises), the hooks of the effect, the
preview as it is now, and what the queue reads. -/
structure ParkContext where
  parkCheck : Option String
  ingestedOps : Option (Option String)
  hooks : EffectHooks
  preview : PreviewAnswer
  workRef : Option String
  runningReleaseId : Option String
  settings : Settings
  lookupNow : Time
  expireNow : Time
  createdAt : Time
  auditNow : Time

/-- The part of a park both seams share: the operation's own check, the effect, and the checks
of the effect. Answers the effect the request is stored with. -/
def parkEffect (D : Deployment) (x : ParkContext) (c : EffectCall) (previewHash : Option String) :
    Except ParkRefusal (Option Dict) :=
  let effect := buildProposedEffect D.classifyOp x.hooks c
  match (if c.descriptor.safetyLevel = .destructive then
      destructiveBindingRefusal previewHash x.preview effect else none) with
  | some refusal => .error refusal
  | none =>
    match preflightDeniedRefusal effect with
    | some refusal => .error refusal
    | none => .ok effect

/-- The arguments of the queue for a call that may wait. -/
def parkArgs (D : Deployment) (x : ParkContext) (c : EffectCall) (effect : Option Dict) :
    CreateArgs where
  operator := c.operator
  connectorId := c.connectorId
  opId := c.descriptor.opId
  targetId := c.targetId
  params := c.params
  paramsHash := D.hashing.params c.params
  proposedEffect := effect
  expiresAt := none
  previewHash := none
  resumeParent := none
  idempotencyKey := none
  requester := none
  revealSecret := false
  workRef := x.workRef
  runningReleaseId := x.runningReleaseId
  settings := x.settings
  lookupNow := x.lookupNow
  expireNow := x.expireNow
  createdAt := x.createdAt
  auditNow := x.auditNow

/-- The dispatcher's park of a call that needs approval. -/
def handleNeedsApproval (D : Deployment) (x : ParkContext) (c : EffectCall)
    (previewHash idempotencyKey : Option String) (revealSecret : Bool) :
    Except ParkRefusal CreateArgs :=
  match x.parkCheck, x.ingestedOps with
  | some reason, _ => .error (.refusedBeforeApproval reason)
  | none, none => .error .resolutionRaised
  | none, some (some message) => .error (.ingestedOpsNotAccepted message)
  | none, some none =>
    (parkEffect D x c previewHash).map fun effect =>
      { parkArgs D x c effect with
        previewHash := previewHash, idempotencyKey := idempotencyKey,
        revealSecret := revealSecret }

/-- The park of a composite's step. It brings no preview hash. -/
def enforceSubopPolicy (D : Deployment) (x : ParkContext) (c : EffectCall)
    (resumeParent : Option ResumeParent) (requester : Option ResumeRequester) :
    Except ParkRefusal CreateArgs :=
  match x.parkCheck with
  | some reason => .error (.refusedBeforeApproval reason)
  | none =>
    (parkEffect D x c none).map fun effect =>
      { parkArgs D x c effect with resumeParent := resumeParent, requester := requester }

/-- The evidence a delete under a grant stores: the same two checks as a destructive park. -/
def destructiveBindingEvidence (classifyOp : String → String) (hooks : EffectHooks)
    (preview : PreviewAnswer) (c : EffectCall) (previewHash : String) : Option Dict :=
  let effect := buildProposedEffect classifyOp hooks c
  match destructiveBindingRefusal (some previewHash) preview effect, effect with
  | none, some e =>
    (dictGet e "blast_radius").map fun block =>
      [("preview_hash", .str previewHash), ("blast_radius", block)]
  | _, _ => none

/-! ## What a parked call's effect says -/

variable {effect : Option Dict} {previewHash : Option String}

theorem destructiveBindingRefusal_none {preview : PreviewAnswer}
    (h : destructiveBindingRefusal previewHash preview effect = none) :
    previewHash = some preview.hash ∧ preview.status = "ok" ∧
      blastRadiusMissingReason effect = none := by
  unfold destructiveBindingRefusal at h
  split at h
  · cases h
  · split at h
    · cases h
    · rename_i hstatus
      split at h
      · cases h
      · rename_i hhash
        refine ⟨?_, ?_, Option.map_eq_none_iff.mp h⟩
        · exact (Decidable.not_not.mp hhash).symm
        · exact Decidable.not_not.mp hstatus

section
variable {D : Deployment} {x : ParkContext} (h : parkEffect D x c previewHash = .ok effect)
include h

theorem parkEffect_ok :
    effect = buildProposedEffect D.classifyOp x.hooks c ∧
      (c.descriptor.safetyLevel = .destructive →
        destructiveBindingRefusal previewHash x.preview effect = none) := by
  unfold parkEffect at h
  simp only at h
  split at h
  · cases h
  · rename_i hbind
    split at h
    · cases h
    · cases h
      refine ⟨rfl, fun hlevel => ?_⟩
      rwa [if_pos hlevel] at hbind

theorem parkEffect_destructive (hlevel : c.descriptor.safetyLevel = .destructive) :
    effectRaises D.classifyOp x.hooks c = false := by
  obtain ⟨heffect, hbind⟩ := parkEffect_ok h
  have hblast := (destructiveBindingRefusal_none (hbind hlevel)).2.2
  rw [Bool.eq_false_iff]
  intro hraises
  rw [← buildProposedEffect_eq_none, ← heffect] at hraises
  rw [hraises] at hblast
  cases hblast

end

end Meho.Dispatch
