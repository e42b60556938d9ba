import Meho.Policy.DirectRun

/- What runs without a person (operations/_validate.py,
operations/service_grants.py).

An operation with a delete sign gets past the gate in two ways. Its own level
lets the caller run it at once: the sign plays no part in that, so a read whose
name looks like a delete still runs. Or, in a sandbox, a delete grant clears it
for a service principal. The ordinary grants decide nothing about it, whenever
they were made: the sign is looked for at the call, under the settings of the
call. -/
namespace Meho.Policy
open Meho.Dispatch
open PermissionVerdict

/-- The operation's level lets the machine run it at once: a safe operation, or a caution
operation that only reads where a service principal calls for itself. -/
def runsAtOnce (c : PolicyCall) : Prop :=
  c.descriptor.requiresApproval = false ∧
    (c.descriptor.safetyLevel = .safe ∨
      (c.descriptor.safetyLevel = .caution ∧ isMutating c.descriptor = false ∧
        c.operator.principalKind = .service ∧ c.actorSub = none))

/-- No person sends the call on their own. -/
def unattended (c : PolicyCall) : Bool :=
  c.operator.principalKind ≠ .user || c.actorSub.isSome

/-! ## Calls that run at once -/

theorem readsOnly_iff (descriptor : EndpointDescriptor) :
    readsOnly descriptor = true ↔ descriptor.requiresApproval = false ∧
      (descriptor.safetyLevel = .safe ∨
        (descriptor.safetyLevel = .caution ∧ isMutating descriptor = false)) := by
  simp [readsOnly]

section
variable {x : PolicyContext} {c : PolicyCall}

theorem nonAgentParkReason_token (hhuman : isHumanPrincipal c.operator = false)
    (hservice : isService c.operator = false) (h : nonAgentParkReason x c = none) :
    c.descriptor.requiresApproval = false ∧ c.descriptor.safetyLevel = .safe := by
  unfold nonAgentParkReason at h
  split at h
  · cases h
  · split at h
    · cases h
    · rename_i happroval
      refine ⟨Bool.eq_false_iff.mpr happroval, ?_⟩
      rw [hservice] at h
      simp only [Bool.false_eq_true, if_false, personParkReason, hhuman, Bool.and_false] at h
      by_contra hlevel
      rw [if_neg hlevel] at h
      cases h

/-- **What lets a caller that is no person through: the level, or a grant.** -/
theorem callerVerdict_autoExecute (hkind : c.operator.principalKind ≠ .user)
    (hactor : c.actorSub = none) (h : (callerVerdict x c).verdict = autoExecute) :
    runsAtOnce c ∨ (clearingGrant x c).isSome = true := by
  have hhuman : isHumanPrincipal c.operator = false := by simpa [isHumanPrincipal] using hkind
  unfold callerVerdict at h
  split at h
  · -- an agent
    obtain ⟨hlevel, happroval⟩ := agentVerdict_autoExecute h
    exact .inl ⟨happroval, .inl hlevel⟩
  · unfold nonAgentVerdict at h
    have hfloor : personRoleFloorDenial x c = none := by simp [personRoleFloorDenial, hhuman]
    rw [hfloor] at h
    simp only at h
    split at h
    · -- a rule makes the call wait, so a grant cleared it
      rw [parkedVerdict_eq] at h
      split at h
      · rename_i hgrant
        exact .inr hgrant
      · cases h
    · rename_i hpark
      by_cases hservice : c.operator.principalKind = .service
      · have hreads := (readsOnly_iff _).mp ((nonAgentParkReason_service hservice).mp hpark)
        obtain ⟨happroval, hlevel | ⟨hlevel, hmutating⟩⟩ := hreads
        · exact .inl ⟨happroval, .inl hlevel⟩
        · exact .inl ⟨happroval, .inr ⟨hlevel, hmutating, hservice, hactor⟩⟩
      · have hno : isService c.operator = false := by simpa [isService] using hservice
        obtain ⟨happroval, hlevel⟩ := nonAgentParkReason_token hhuman hno hpark
        exact .inl ⟨happroval, .inl hlevel⟩

theorem directRunVerdict_autoExecute {actorSub : String}
    (h : (directRunVerdict x c actorSub).verdict = autoExecute) :
    c.descriptor.safetyLevel = .safe ∧ c.descriptor.requiresApproval = false := by
  by_cases hskip : (hostedAgentVerdict x c actorSub).1 = needsApproval ∧
      c.operator.principalKind ≠ .agent
  · rw [directRunVerdict_skipped hskip.1 hskip.2] at h
    cases h
  · rw [directRunVerdict_combined hskip, max_eq_autoExecute] at h
    exact agentVerdict_autoExecute h.1

theorem clearingGrant_deleteSign (hsign : (x.deleteReason c).isSome = true)
    (h : (clearingGrant x c).isSome = true) :
    c.operator.principalKind = .service ∧ ∃ connectorId grant,
      c.connectorId = some connectorId ∧ DeleteGranted x c connectorId grant := by
  obtain ⟨use, huse⟩ := Option.isSome_iff_exists.mp h
  unfold clearingGrant at huse
  split at huse
  · rename_i hservice
    obtain ⟨connectorId, hconnector, hconsult⟩ := Option.bind_eq_some_iff.mp huse
    refine ⟨by simpa [isService] using hservice, connectorId, use.grant, hconnector, ?_⟩
    rcases consultAndRecordGrant_some hconsult with hdelete | ⟨hnone, -⟩
    · exact hdelete
    · rw [hnone] at hsign
      cases hsign
  · cases huse

end

/-! ## The ordinary grants have no say -/

section Ordinary
variable {x : PolicyContext} {c : PolicyCall} (hsign : (x.deleteReason c).isSome = true)
  (grants : List GrantRow)
include hsign

theorem parkedVerdict_ordinary (gateReason : String) :
    (parkedVerdict { x with grants := grants } c gateReason).verdict =
      (parkedVerdict x c gateReason).verdict := by
  have hclear : clearingGrant { x with grants := grants } c = clearingGrant x c := by
    unfold clearingGrant
    congr 2
    funext connectorId
    exact consultAndRecordGrant_deleteSign hsign grants connectorId
  rw [parkedVerdict_eq, parkedVerdict_eq, hclear]

theorem callerVerdict_ordinary :
    (callerVerdict { x with grants := grants } c).verdict = (callerVerdict x c).verdict := by
  unfold callerVerdict
  split
  · rfl
  · unfold nonAgentVerdict
    have hfloor : personRoleFloorDenial { x with grants := grants } c =
        personRoleFloorDenial x c := rfl
    have hpark : nonAgentParkReason { x with grants := grants } c = nonAgentParkReason x c := rfl
    rw [hfloor, hpark]
    cases personRoleFloorDenial x c with
    | some denial => rfl
    | none =>
      cases nonAgentParkReason x c with
      | some gateReason => exact parkedVerdict_ordinary hsign grants gateReason
      | none => rfl

theorem directRunVerdict_ordinary (actorSub : String) :
    (directRunVerdict { x with grants := grants } c actorSub).verdict =
      (directRunVerdict x c actorSub).verdict := by
  have hagent : hostedAgentVerdict { x with grants := grants } c actorSub =
      hostedAgentVerdict x c actorSub := rfl
  by_cases hskip : (hostedAgentVerdict x c actorSub).1 = needsApproval ∧
      c.operator.principalKind ≠ .agent
  · have hskip' : (hostedAgentVerdict { x with grants := grants } c actorSub).1 =
        needsApproval := hskip.1
    rw [directRunVerdict_skipped hskip' hskip.2]
    exact (directRunVerdict_skipped hskip.1 hskip.2).symm
  · calc (directRunVerdict { x with grants := grants } c actorSub).verdict
        = max (hostedAgentVerdict { x with grants := grants } c actorSub).1
            (callerVerdict { x with grants := grants } c).verdict :=
          directRunVerdict_combined hskip
      _ = max (hostedAgentVerdict x c actorSub).1 (callerVerdict x c).verdict := by
          rw [callerVerdict_ordinary hsign grants, hagent]
      _ = (directRunVerdict x c actorSub).verdict := (directRunVerdict_combined hskip).symm

theorem policyGate_ordinary :
    (policyGate { x with grants := grants } c).verdict = (policyGate x c).verdict := by
  unfold policyGate
  cases c.actorSub with
  | some actorSub => exact directRunVerdict_ordinary hsign grants actorSub
  | none => exact callerVerdict_ordinary hsign grants

end Ordinary

/-! ## Deletes without a person -/

/-- What lets an operation with a delete sign through where no person calls. -/
theorem policyGate_deleteSign {x : PolicyContext} {c : PolicyCall}
    (hsign : (x.deleteReason c).isSome = true) (hunattended : unattended c = true)
    (hauto : (policyGate x c).verdict = autoExecute) :
    runsAtOnce c ∨
      (c.operator.principalKind = .service ∧ c.actorSub = none ∧
        ∃ connectorId grant, c.connectorId = some connectorId ∧
          DeleteGranted x c connectorId grant) := by
  unfold policyGate at hauto
  cases hactor : c.actorSub with
  | some actorSub =>
    -- the hosted agent has to be let through as well, and grants do not help it
    rw [hactor] at hauto
    obtain ⟨hlevel, happroval⟩ := directRunVerdict_autoExecute hauto
    exact .inl ⟨happroval, .inl hlevel⟩
  | none =>
    rw [hactor] at hauto
    have hkind : c.operator.principalKind ≠ .user := by
      simpa [unattended, hactor] using hunattended
    rcases callerVerdict_autoExecute hkind hactor hauto with hlevel | hgrant
    · exact .inl hlevel
    · obtain ⟨hservice, hdelete⟩ := clearingGrant_deleteSign hsign hgrant
      exact .inr ⟨hservice, rfl, hdelete⟩

/-- **An operation with a delete sign runs without a person only because its own level lets the
caller run it at once, or, in a sandbox, under a live delete grant with its evidence; no
table of ordinary grants changes the verdict.** -/
theorem unattended_delete_needs_delete_grant {x : PolicyContext} {c : PolicyCall}
    (hsign : (x.deleteReason c).isSome = true) (hunattended : unattended c = true) :
    ((policyGate x c).verdict = autoExecute →
      runsAtOnce c ∨
        (c.operator.principalKind = .service ∧ c.actorSub = none ∧
          ∃ connectorId grant, c.connectorId = some connectorId ∧
            DeleteGranted x c connectorId grant)) ∧
    ∀ grants, (policyGate { x with grants := grants } c).verdict = (policyGate x c).verdict := by
  constructor
  · intro hauto
    exact policyGate_deleteSign hsign hunattended hauto
  · intro grants
    exact policyGate_ordinary hsign grants

/-- A sandbox where the robot may delete aliases on the first firewall, and the preview of its
call names one. -/
def sandboxContext : PolicyContext :=
  { quietContext with
    sandboxModeActive := true
    deleteGrants := [⟨7, 1, "robot", "pfsense.alias.delete", "pfsense-1", some 0, none, none, none,
      some 100⟩]
    hooks := ⟨false, some (.answered [("blast_radius", .obj [("object", .str "alias web"),
      ("children", .arr []), ("irreversibility", .str "recreatable")])]), none, none⟩ }

/-- The robot deletes an alias and sends the hash of the preview. -/
def aliasDelete : PolicyCall where
  operator := caller "robot" .service .operator
  actorSub := none
  descriptor := ⟨"pfsense.alias.delete", .destructive, true, none, [], .obj []⟩
  target := some ⟨some 0, some "pfsense", some "fw-1"⟩
  connectorId := some "pfsense-1"
  previewHash := some "h"
  params := some [("name", .str "web")]
  decideOnly := false

theorem unattended_delete_needs_delete_grant_alias :
    (policyGate sandboxContext aliasDelete).verdict = autoExecute ∧
      ∃ connectorId grant, aliasDelete.connectorId = some connectorId ∧
        DeleteGranted sandboxContext aliasDelete connectorId grant := by
  have hauto : (policyGate sandboxContext aliasDelete).verdict = autoExecute := by decide
  refine ⟨hauto, ?_⟩
  rcases (unattended_delete_needs_delete_grant (by decide) (by decide)).1 hauto with
    hlevel | ⟨-, -, hdelete⟩
  · cases hlevel.1
  · exact hdelete

/-- A read whose name ends like a delete. -/
def namedLikeDelete : PolicyCall :=
  { aliasDelete with
    descriptor := ⟨"GET:/api/chat.delete", .safe, false, some "GET", [], .obj []⟩
    target := none
    connectorId := some "chat-1"
    previewHash := none }

/-- It carries a delete sign, and a service principal runs it at once: the instance is no sandbox
and there is no grant at all. -/
theorem named_like_delete_runs_at_once :
    (quietContext.deleteReason namedLikeDelete).isSome = true ∧
      unattended namedLikeDelete = true ∧
      (policyGate quietContext namedLikeDelete).verdict = autoExecute ∧
      quietContext.sandboxModeActive = false ∧
      ¬∃ connectorId grant, DeleteGranted quietContext namedLikeDelete connectorId grant := by
  refine ⟨by decide, by decide, by decide, rfl, ?_⟩
  rintro ⟨connectorId, grant, hgranted⟩
  cases hgranted.sandbox

end Meho.Policy
