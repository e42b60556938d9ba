import Meho.Policy.Grants

/- The policy gate (operations/_validate.py).

Every call gets a verdict before it runs: an agent from its permission rows, a
person from how the call arrived, a service principal from the risk level, its
standing grants and its read scope. A call of a hosted agent's run gets two, the
agent's and the caller's, and the gate combines them.

`Ruling` is the answer with the grant it rests on. One lemma says what each
kind of caller is let through with (`callerVerdict_autoExecute`), one when a
caller is denied (`nonAgentVerdict_deny`); everything about the gate comes from
these and from the agent's verdict.

Correspondence: each function keeps its name. -/
namespace Meho.Policy
open Meho.Dispatch
open Meho.Approval (Params)
open PermissionVerdict

/-- The gate's answer: the verdict, its reason, and the grant that clears the call. -/
structure Ruling where
  verdict : PermissionVerdict
  reason : Option String
  use : Option GrantUse

/-! ## Why a call waits -/

/-- The operation writes: by its HTTP verb, or by its level where it has no verb. -/
def isMutating (descriptor : EndpointDescriptor) : Bool :=
  let method := descriptor.method.getD ""
  if method ≠ "" then !(["GET", "HEAD"].contains (upperVerb method))
  else descriptor.safetyLevel ≠ .safe

def sandboxDeleteGrantNote (decideOnly : Bool) : String :=
  if decideOnly then
    "; this instance is in sandbox mode, but no live delete grant covers this call, so it waits " ++
      "for approval"
  else "; this instance is in sandbox mode, so a delete grant made in the web console may cover it"

/-- What the risk level asks of a service principal. -/
def serviceSafetyGateReason (sandboxModeActive : Bool) (descriptor : EndpointDescriptor) :
    Option String :=
  match descriptor.safetyLevel with
  | .destructive =>
    if sandboxModeActive then
      some ("safety_level=destructive; service-principal deletes park (routed to the approval " ++
        "queue) unless a delete grant made in the web console covers them — this instance is in " ++
        "sandbox mode (#4622)")
    else
      some ("safety_level=destructive; service-principal deletes park always (routed to the " ++
        "approval queue) and are never satisfiable by a standing grant — mandatory human " ++
        "approval (#3183)")
  | .dangerous =>
    some ("safety_level=dangerous; service-principal mutations park (routed to the approval " ++
      "queue) unless a standing grant covers them (#3152)")
  | .caution =>
    if isMutating descriptor then
      some ("safety_level=caution mutating op; service-principal mutations park unless a " ++
        "standing grant covers them (#3152)")
    else none
  | .safe => none

/-- Why a person's call waits, by how it arrived. -/
def personParkReason (operator : Operator) (descriptor : EndpointDescriptor) : Option String :=
  let level := descriptor.safetyLevel
  if level = .safe then none
  else if operator.webSession && isHumanPrincipal operator then
    if level = .caution then none
    else some ("safety_level=" ++ level.value ++ "; in the web interface only safe and caution " ++
      "operations run at once, so this waits for an approval click (#3980)")
  else some ("safety_level=" ++ level.value ++ "; a call made with a token runs only safe " ++
    "operations at once, so this waits for an approval click (#3980)")

def isService (operator : Operator) : Bool := operator.principalKind = .service

/-- Why a call of a person or a service principal waits, `none` when it runs at once. -/
def nonAgentParkReason (x : PolicyContext) (c : PolicyCall) : Option String :=
  if c.descriptor.safetyLevel = .destructive then
    some ("safety_level=destructive; mandatory human approval — every non-agent principal parks " ++
      "(routed to the approval queue), never auto-executes, and no standing grant can pre-clear " ++
      "it (#3183)" ++
      if isService c.operator && x.sandboxModeActive then sandboxDeleteGrantNote c.decideOnly
      else "")
  else if c.descriptor.requiresApproval then
    some "requires_approval is True; routed to the approval queue (G11.7-T1)"
  else if isService c.operator then serviceSafetyGateReason x.sandboxModeActive c.descriptor
  else personParkReason c.operator c.descriptor

/-! ## The verdicts -/

/-- Why a person may not run the operation at all. -/
def personRoleFloorDenial (x : PolicyContext) (c : PolicyCall) : Option String :=
  if isHumanPrincipal c.operator then
    roleFloorDenial x.floors c.descriptor.opId c.operator.tenantRole
  else none

/-- A reason with a note behind it. -/
def withNote (reason : Option String) (note : String) : Option String :=
  some (match reason with
    | some reason => if reason = "" then note else reason ++ "; " ++ note
    | none => note)

/-- A waiting call of a service principal: the grant that clears it, or why none does. -/
def serviceGrantVerdict (x : PolicyContext) (c : PolicyCall) (connectorId : String)
    (gateReason : Option String) : GrantUse × String ⊕ Option String :=
  match consultAndRecordGrant x c connectorId with
  | some use =>
    -- only a delete grant covers a destructive call, and the real call has to send the hash
    if c.decideOnly && c.descriptor.safetyLevel = .destructive then
      .inl (use, s!"auto-granted by delete grant {use.grant.id}, when the call sends the " ++
        "preview_hash of this preview")
    else .inl (use, s!"auto-granted by standing grant {use.grant.id}")
  | none =>
    if hasCallerAddress c.descriptor.parameterSchema then
      .inr (withNote gateReason ("the operation connects to an address the caller gives, so no " ++
        "standing grant covers it; a person approves each call"))
    else
      match nullTargetOnlyParkHint x.grants c.operator c.descriptor.opId connectorId c.targetId
        x.now with
      | some hint => .inr (withNote gateReason hint)
      | none => .inr gateReason

/-- A call that no rule lets through at once: a grant clears it, or it waits. -/
def parkedVerdict (x : PolicyContext) (c : PolicyCall) (gateReason : String) : Ruling :=
  if isService c.operator then
    match c.connectorId with
    | some connectorId =>
      match serviceGrantVerdict x c connectorId (some gateReason) with
      | .inl (use, reason) => ⟨autoExecute, some reason, some use⟩
      | .inr reason => ⟨needsApproval, reason, none⟩
    | none => ⟨needsApproval, some gateReason, none⟩
  else ⟨needsApproval, some gateReason, none⟩

/-- The verdict of a person, a service principal or a runner. -/
def nonAgentVerdict (x : PolicyContext) (c : PolicyCall) : Ruling :=
  match personRoleFloorDenial x c with
  | some denial => ⟨deny, some denial, none⟩
  | none =>
    match nonAgentParkReason x c with
    | some gateReason => parkedVerdict x c gateReason
    | none =>
      match (if isService c.operator then readScopeDenial x.readScopes c.operator c.target
        else none) with
      | some denial => ⟨deny, some denial, none⟩
      | none => ⟨autoExecute, none, none⟩

/-- The verdict of the caller alone. -/
def callerVerdict (x : PolicyContext) (c : PolicyCall) : Ruling :=
  if c.operator.principalKind = .agent then
    let own := agentVerdict x.permissions x.now c.operator c.descriptor c.targetId
    ⟨own.1, some own.2, none⟩
  else nonAgentVerdict x c

/-- The hosted agent of a run, with the tenant and the role of its caller. -/
def hostedAgent (operator : Operator) (actorSub : String) : Operator :=
  { operator with sub := actorSub, principalKind := .agent, clientId := some actorSub }

/-- The hosted agent's own verdict. -/
def hostedAgentVerdict (x : PolicyContext) (c : PolicyCall) (actorSub : String) :
    PermissionVerdict × String :=
  agentVerdict x.permissions x.now (hostedAgent c.operator actorSub) c.descriptor c.targetId

/-- The verdict of a call of a hosted agent's run. -/
def directRunVerdict (x : PolicyContext) (c : PolicyCall) (actorSub : String) : Ruling :=
  let agent := hostedAgentVerdict x c actorSub
  let agentResult : Ruling :=
    ⟨agent.1, some ("agent " ++ actorSub ++ " acting for " ++ c.operator.sub ++ ": " ++ agent.2),
      none⟩
  if agent.1 = deny then agentResult
  -- the caller's verdict is not worked out here: it could use a grant for a call that waits
  else if agent.1 = needsApproval ∧ c.operator.principalKind ≠ .agent then agentResult
  else
    let own := callerVerdict x c
    if moreRestrictive own.verdict agent.1 = own.verdict then own else agentResult

def policyGate (x : PolicyContext) (c : PolicyCall) : Ruling :=
  match c.actorSub with
  | some actorSub => directRunVerdict x c actorSub
  | none => callerVerdict x c

/-! ## Who runs at once, and who is denied -/

/-- The operation is one a service principal runs without a grant. -/
def readsOnly (descriptor : EndpointDescriptor) : Bool :=
  !descriptor.requiresApproval &&
    (descriptor.safetyLevel = .safe ||
      (descriptor.safetyLevel = .caution && !isMutating descriptor))

/-- The caller is denied: a person below the operation's role floor, or a service principal that
reads outside its scope. -/
def callerDenied (x : PolicyContext) (c : PolicyCall) : Bool :=
  match c.operator.principalKind with
  | .user => (roleFloorDenial x.floors c.descriptor.opId c.operator.tenantRole).isSome
  | .service =>
    readsOnly c.descriptor && (readScopeDenial x.readScopes c.operator c.target).isSome
  | _ => false

theorem serviceSafetyGateReason_none (sandboxModeActive : Bool)
    {descriptor : EndpointDescriptor} (happroval : descriptor.requiresApproval = false) :
    serviceSafetyGateReason sandboxModeActive descriptor = none ↔ readsOnly descriptor = true := by
  unfold serviceSafetyGateReason readsOnly
  rw [happroval]
  cases descriptor.safetyLevel with
  | safe => exact iff_of_true rfl (by simp)
  | caution =>
    cases isMutating descriptor with
    | true => exact iff_of_false (fun h => by cases h) (by simp)
    | false => exact iff_of_true rfl (by simp)
  | dangerous => exact iff_of_false (fun h => by cases h) (by simp)
  | destructive =>
    cases sandboxModeActive with
    | true => exact iff_of_false (fun h => by cases h) (by simp)
    | false => exact iff_of_false (fun h => by cases h) (by simp)

variable {x : PolicyContext} {c : PolicyCall}

/-- A service principal's call runs at once exactly when it only reads. -/
theorem nonAgentParkReason_service (hkind : c.operator.principalKind = .service) :
    nonAgentParkReason x c = none ↔ readsOnly c.descriptor = true := by
  have hservice : isService c.operator = true := by simp [isService, hkind]
  unfold nonAgentParkReason
  by_cases hdestructive : c.descriptor.safetyLevel = .destructive
  · rw [if_pos hdestructive]
    exact iff_of_false (fun h => by cases h) (by simp [readsOnly, hdestructive])
  · rw [if_neg hdestructive]
    by_cases happroval : c.descriptor.requiresApproval = true
    · rw [if_pos happroval]
      exact iff_of_false (fun h => by cases h) (by simp [readsOnly, happroval])
    · rw [if_neg happroval, if_pos hservice]
      exact serviceSafetyGateReason_none _ (Bool.eq_false_iff.mpr happroval)

/-- The grant that clears the call where it waits. -/
def clearingGrant (x : PolicyContext) (c : PolicyCall) : Option GrantUse :=
  if isService c.operator then c.connectorId.bind fun id => consultAndRecordGrant x c id else none

theorem serviceGrantVerdict_some {connectorId : String} {use : GrantUse}
    (gateReason : Option String) (h : consultAndRecordGrant x c connectorId = some use) :
    ∃ reason, serviceGrantVerdict x c connectorId gateReason = .inl (use, reason) := by
  unfold serviceGrantVerdict
  rw [h]
  simp only
  split
  · exact ⟨_, rfl⟩
  · exact ⟨_, rfl⟩

theorem serviceGrantVerdict_none {connectorId : String} (gateReason : Option String)
    (h : consultAndRecordGrant x c connectorId = none) :
    ∃ reason, serviceGrantVerdict x c connectorId gateReason = .inr reason := by
  unfold serviceGrantVerdict
  rw [h]
  simp only
  split
  · exact ⟨_, rfl⟩
  · split
    · exact ⟨_, rfl⟩
    · exact ⟨_, rfl⟩

/-- A call that waits is cleared by a grant or waits. -/
theorem parkedVerdict_eq (x : PolicyContext) (c : PolicyCall) (gateReason : String) :
    (parkedVerdict x c gateReason).verdict =
      if (clearingGrant x c).isSome then autoExecute else needsApproval := by
  unfold parkedVerdict clearingGrant
  cases isService c.operator with
  | false => rfl
  | true =>
    cases c.connectorId with
    | none => rfl
    | some connectorId =>
      cases hconsult : consultAndRecordGrant x c connectorId with
      | some use =>
        obtain ⟨reason, hreason⟩ := serviceGrantVerdict_some (some gateReason) hconsult
        simp [hreason, hconsult]
      | none =>
        obtain ⟨reason, hreason⟩ := serviceGrantVerdict_none (some gateReason) hconsult
        simp [hreason, hconsult]

theorem parkedVerdict_ne_deny (x : PolicyContext) (c : PolicyCall) (gateReason : String) :
    (parkedVerdict x c gateReason).verdict ≠ deny := by
  rw [parkedVerdict_eq]
  split
  · decide
  · decide

theorem nonAgentVerdict_deny (hkind : c.operator.principalKind ≠ .agent) :
    (nonAgentVerdict x c).verdict = deny ↔ callerDenied x c = true := by
  unfold nonAgentVerdict personRoleFloorDenial callerDenied isHumanPrincipal isService
  cases hk : c.operator.principalKind with
  | agent => exact absurd hk hkind
  | user =>
    simp only [decide_true, if_true]
    cases roleFloorDenial x.floors c.descriptor.opId c.operator.tenantRole with
    | some denial => simp
    | none =>
      cases nonAgentParkReason x c with
      | some gateReason => simpa using parkedVerdict_ne_deny x c gateReason
      | none => simp
  | service =>
    have hpark := nonAgentParkReason_service (x := x) hk
    cases hreason : nonAgentParkReason x c with
    | some gateReason =>
      rw [hreason] at hpark
      have hreads : readsOnly c.descriptor = false := by simpa using hpark
      simpa [hreads] using parkedVerdict_ne_deny x c gateReason
    | none =>
      have hreads : readsOnly c.descriptor = true := hpark.mp hreason
      cases readScopeDenial x.readScopes c.operator c.target with
      | some denial => simp [hreads]
      | none => simp [hreads]
  | runner =>
    cases nonAgentParkReason x c with
    | some gateReason => simpa using parkedVerdict_ne_deny x c gateReason
    | none => simp

/-- A caller of a kind and a role. -/
def caller (sub : String) (kind : PrincipalKind) (role : TenantRole) : Operator :=
  { Approval.expiryOperator 1 with sub := sub, principalKind := kind, tenantRole := role }

/-- No rows anywhere; registering a target takes a tenant admin. -/
def quietContext : PolicyContext where
  now := 0
  sandboxModeActive := false
  deleteShapedPatterns := defaultServiceGrantDeleteShapedPatterns
  upper := fun _ => false
  permissions := []
  grants := []
  deleteGrants := []
  readScopes := []
  floors := fun opId => if opId = "targets.register" then some .tenantAdmin else none
  classifyOp := fun _ => "write"
  hooks := ⟨false, none, some [], none⟩
  preview := ⟨"ok", "h"⟩

end Meho.Policy
