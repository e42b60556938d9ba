import Mathlib.Order.Lattice
import Mathlib.Order.MinMax
import Mathlib.Order.Basic
import Meho.Policy.Names

/- The verdict of an agent (auth/permissions.py, `_agent_verdict` of
operations/_validate.py).

Verdicts are ordered from the one that runs at once to the denial, and every
combination the code makes of two of them is the stricter one, the maximum of
this order. `agentVerdict_fst` writes an agent's verdict as the maximum of what
its permission rows say, what the risk level asks for, what the caller's role
asks for and what the operation's own approval flag asks for; everything about
an agent's verdict follows from it.

Correspondence: each function keeps its name. -/
namespace Meho.Policy
open Meho.Dispatch

/-! ## Verdicts -/

inductive PermissionVerdict where
  | autoExecute
  | needsApproval
  | deny
  deriving DecidableEq, Repr

namespace PermissionVerdict

def value : PermissionVerdict → String
  | autoExecute => "auto-execute"
  | needsApproval => "needs-approval"
  | deny => "deny"

/-- The place in `_VERDICT_ORDER`, the most permissive first. -/
def rank : PermissionVerdict → Nat
  | autoExecute => 0
  | needsApproval => 1
  | deny => 2

theorem rank_injective : Function.Injective rank := by
  intro a b h
  cases a <;> cases b <;> first | rfl | cases h

/-- Stricter is greater. -/
instance : LinearOrder PermissionVerdict := LinearOrder.lift' rank rank_injective

theorem max_eq_autoExecute {a b : PermissionVerdict} :
    max a b = autoExecute ↔ a = autoExecute ∧ b = autoExecute := by
  cases a <;> cases b <;> decide

end PermissionVerdict

open PermissionVerdict

/-- The stricter of two verdicts, the first one on a tie. -/
def moreRestrictive (a b : PermissionVerdict) : PermissionVerdict :=
  if b.rank ≤ a.rank then a else b

theorem moreRestrictive_eq_max (a b : PermissionVerdict) : moreRestrictive a b = max a b := by
  cases a <;> cases b <;> decide

/-! ## The resolver -/

/-- One row of `agent_permission`. -/
structure AgentPermission where
  tenantId : Nat
  principalSub : String
  opPattern : String
  targetScope : Option String
  verdict : PermissionVerdict
  expiresAt : Option Time

/-- `_SAFETY_DEFAULT`. -/
def safetyDefault : SafetyLevel → PermissionVerdict
  | .safe => autoExecute
  | _ => needsApproval

/-- `_SAFETY_CEILING`: how permissive a row can make an operation of this level. -/
def safetyCeiling : SafetyLevel → Option PermissionVerdict
  | .safe => none
  | _ => some needsApproval

def applyCeiling (verdict : PermissionVerdict) (level : SafetyLevel) : PermissionVerdict :=
  match safetyCeiling level with
  | none => verdict
  | some ceiling => moreRestrictive verdict ceiling

def roleCeiling : TenantRole → Option PermissionVerdict
  | .readOnly => some needsApproval
  | _ => none

/-- The length of the pattern's literal start. -/
def patternSpecificity (pattern : String) : Nat :=
  (pattern.toList.takeWhile fun c => !(['*', '?', '['].contains c)).length

/-- The names a grant of the operator may be keyed on. -/
def grantPrincipalSubs (operator : Operator) : List String :=
  operator.sub ::
    (if operator.principalKind = .agent then
      operator.clientId.toList.filter (· ≠ "")
    else [])

/-- The rows of the operator that are in force. -/
def loadRows (rows : List AgentPermission) (now : Time) (operator : Operator) :
    List AgentPermission :=
  rows.filter fun row =>
    row.tenantId = operator.tenantId && (grantPrincipalSubs operator).contains row.principalSub &&
      match row.expiresAt with
      | none => true
      | some expiresAt => decide (now < expiresAt)

/-- The row covers the operation and the target. -/
def AgentPermission.matches (row : AgentPermission) (opId : String) (targetId : Option Nat) :
    Bool :=
  fnmatchcase opId row.opPattern &&
    match row.targetScope with
    | none => true
    | some scope => scope = "" || scope = "*" || targetId.map toString = some scope

/-- The verdict of the most specific rows, the strictest on a tie, or the level's default. -/
def pickRawVerdict (rows : List AgentPermission) (level : SafetyLevel) :
    PermissionVerdict × String :=
  let top := (rows.map fun r => patternSpecificity r.opPattern).foldl max 0
  match rows.filter fun r => patternSpecificity r.opPattern = top with
  | [] => (safetyDefault level, "safety_level default (" ++ level.value ++ ")")
  | [row] => (row.verdict, "permission row (pattern=" ++ quoted row.opPattern ++ ")")
  | row :: rest =>
    (rest.foldl (fun verdict r => moreRestrictive verdict r.verdict) row.verdict,
      "most-restrictive of tied rows (patterns=" ++ ", ".intercalate
        (((row :: rest).map (·.opPattern)).mergeSort fun a b => decide (a ≤ b)) ++ ")")

/-- The verdict under the level's and the role's ceiling, and its reason. -/
def finalizeVerdict (raw : PermissionVerdict) (level : SafetyLevel) (role : TenantRole)
    (source : String) : PermissionVerdict × String :=
  let afterOp := applyCeiling raw level
  let final :=
    match roleCeiling role with
    | none => afterOp
    | some ceiling => moreRestrictive afterOp ceiling
  (final, "; ".intercalate
    (["verdict=" ++ final.value, "source=" ++ source] ++
      (if afterOp ≠ raw then
        ["tightened by safety_level ceiling (" ++ level.value ++ "→" ++ afterOp.value ++ ")"]
      else []) ++
      (if afterOp ≠ final then
        ["tightened by role ceiling (" ++ role.value ++ "→" ++ final.value ++ ")"]
      else [])))

/-- The rows that decide about a call. -/
def matchingRows (rows : List AgentPermission) (now : Time) (operator : Operator)
    (opId : String) (targetId : Option Nat) : List AgentPermission :=
  (loadRows rows now operator).filter fun row => row.matches opId targetId

def resolveVerdict (rows : List AgentPermission) (now : Time) (operator : Operator)
    (opId : String) (level : SafetyLevel) (targetId : Option Nat) : PermissionVerdict × String :=
  let raw := pickRawVerdict (matchingRows rows now operator opId targetId) level
  finalizeVerdict raw.1 level operator.tenantRole raw.2

/-- The verdict of an agent. The operation's own approval flag is a floor. -/
def agentVerdict (rows : List AgentPermission) (now : Time) (operator : Operator)
    (descriptor : EndpointDescriptor) (targetId : Option Nat) : PermissionVerdict × String :=
  let resolved := resolveVerdict rows now operator descriptor.opId descriptor.safetyLevel targetId
  if descriptor.requiresApproval then
    let floored := moreRestrictive resolved.1 needsApproval
    if floored ≠ resolved.1 then
      (floored, resolved.2 ++ "; floored to needs-approval (descriptor.requires_approval)")
    else resolved
  else resolved

/-! ## An agent's verdict is the strictest of four -/

/-- What the risk level, the role and the approval flag ask of an agent's call. -/
def agentFloor (operator : Operator) (descriptor : EndpointDescriptor) : PermissionVerdict :=
  if descriptor.safetyLevel = .safe ∧ operator.tenantRole ≠ .readOnly ∧
      descriptor.requiresApproval = false then autoExecute
  else needsApproval

/-- What the permission rows say of a call, before any ceiling. -/
def rowVerdict (rows : List AgentPermission) (now : Time) (operator : Operator)
    (descriptor : EndpointDescriptor) (targetId : Option Nat) : PermissionVerdict :=
  (pickRawVerdict (matchingRows rows now operator descriptor.opId targetId)
    descriptor.safetyLevel).1

theorem finalizeVerdict_fst (raw : PermissionVerdict) (level : SafetyLevel) (role : TenantRole)
    (source : String) :
    (finalizeVerdict raw level role source).1 =
      max raw (if level = .safe ∧ role ≠ .readOnly then autoExecute else needsApproval) := by
  cases level <;> cases role <;> cases raw <;> rfl

theorem agentVerdict_fst (rows : List AgentPermission) (now : Time) (operator : Operator)
    (descriptor : EndpointDescriptor) (targetId : Option Nat) :
    (agentVerdict rows now operator descriptor targetId).1 =
      max (rowVerdict rows now operator descriptor targetId) (agentFloor operator descriptor) := by
  have hresolved : (resolveVerdict rows now operator descriptor.opId descriptor.safetyLevel
      targetId).1 = max (rowVerdict rows now operator descriptor targetId)
        (if descriptor.safetyLevel = .safe ∧ operator.tenantRole ≠ .readOnly then autoExecute
          else needsApproval) :=
    finalizeVerdict_fst _ _ _ _
  unfold agentVerdict
  simp only
  by_cases happroval : descriptor.requiresApproval = true
  · -- the flag asks for approval as well
    have hfloor : agentFloor operator descriptor = needsApproval := by
      simp [agentFloor, happroval]
    have hmax : ∀ a b : PermissionVerdict, (b = autoExecute ∨ b = needsApproval) →
        moreRestrictive (max a b) needsApproval = max a needsApproval := by
      intro a b hb
      rcases hb with rfl | rfl <;> cases a <;> decide
    have hgoal : moreRestrictive (resolveVerdict rows now operator descriptor.opId
        descriptor.safetyLevel targetId).1 needsApproval =
        max (rowVerdict rows now operator descriptor targetId) needsApproval := by
      rw [hresolved]
      apply hmax
      split
      · exact .inl rfl
      · exact .inr rfl
    rw [if_pos happroval, hfloor, ← hgoal]
    split
    · rfl
    · rename_i hsame
      exact (Decidable.not_not.mp hsame).symm
  · rw [if_neg happroval, hresolved]
    simp [agentFloor, happroval]

/-- An agent runs only safe operations at once. -/
theorem agentVerdict_autoExecute {rows : List AgentPermission} {now : Time} {operator : Operator}
    {descriptor : EndpointDescriptor} {targetId : Option Nat}
    (h : (agentVerdict rows now operator descriptor targetId).1 = autoExecute) :
    descriptor.safetyLevel = .safe ∧ descriptor.requiresApproval = false := by
  rw [agentVerdict_fst, max_eq_autoExecute] at h
  have hfloor := h.2
  unfold agentFloor at hfloor
  split at hfloor
  · rename_i hall
    exact ⟨hall.1, hall.2.2⟩
  · cases hfloor

/-- An agent's call waits when no row denies it and a row or its floor asks for approval. -/
theorem agentVerdict_needsApproval (rows : List AgentPermission) (now : Time)
    (operator : Operator) (descriptor : EndpointDescriptor) (targetId : Option Nat) :
    (agentVerdict rows now operator descriptor targetId).1 = needsApproval ↔
      rowVerdict rows now operator descriptor targetId ≠ deny ∧
        (rowVerdict rows now operator descriptor targetId = needsApproval ∨
          agentFloor operator descriptor = needsApproval) := by
  rw [agentVerdict_fst]
  have hfloor : agentFloor operator descriptor = autoExecute ∨
      agentFloor operator descriptor = needsApproval := by
    unfold agentFloor
    split
    · exact .inl rfl
    · exact .inr rfl
  rcases hfloor with h | h <;> rw [h] <;>
    cases rowVerdict rows now operator descriptor targetId <;> decide

end Meho.Policy
