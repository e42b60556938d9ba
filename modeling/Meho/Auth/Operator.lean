import Meho.Json

/- Who calls: the operator a verified token gives, the deployment's settings,
and the role an operation may ask of a person.

Correspondence: auth/operator.py `PrincipalKind`, `TenantRole`, `Operator`,
`Operator.may_self_approve`, `is_human_principal`; settings.py `Settings`
(the fields the modelled functions read, with the bounds its field
declarations check); operations/role_floors.py `role_floor_for`,
`role_floor_denial`. Times are microseconds, ages and limits are seconds. -/
namespace Meho

/-- A point in time or a span, in microseconds. -/
abbrev Time := Int

/-- Seconds as a span. -/
def seconds (n : Int) : Time := n * 1000000

inductive PrincipalKind where
  | user
  | service
  | agent
  | runner
  deriving DecidableEq, Repr

def PrincipalKind.value : PrincipalKind → String
  | .user => "user"
  | .service => "service"
  | .agent => "agent"
  | .runner => "runner"

inductive TenantRole where
  | readOnly
  | operator
  | tenantAdmin
  deriving DecidableEq, Repr

def TenantRole.value : TenantRole → String
  | .readOnly => "read_only"
  | .operator => "operator"
  | .tenantAdmin => "tenant_admin"

/-- The place of a role on the ladder, lowest first. -/
def TenantRole.order : TenantRole → Nat
  | .readOnly => 0
  | .operator => 1
  | .tenantAdmin => 2

/-- The risk level of an operation; the database admits no other. -/
inductive SafetyLevel where
  | safe
  | caution
  | dangerous
  | destructive
  deriving DecidableEq, Repr

def SafetyLevel.value : SafetyLevel → String
  | .safe => "safe"
  | .caution => "caution"
  | .dangerous => "dangerous"
  | .destructive => "destructive"

/-- The validated identity behind a call. -/
structure Operator where
  sub : String
  name : Option String
  tenantId : Nat
  tenantRole : TenantRole
  principalKind : PrincipalKind
  approver : Bool
  selfApprover : Bool
  tenantChosen : Bool
  roleFromPlatformAdmin : Bool
  webSession : Bool
  clientId : Option String
  azp : Option String
  authTime : Option Int
  sid : Option String
  acr : Option String
  deriving Repr

/-- Whether the operator is a person. -/
def isHumanPrincipal (operator : Operator) : Bool := operator.principalKind = .user

/-- Whether this person may approve their own change. -/
def Operator.maySelfApprove (operator : Operator) : Bool :=
  operator.selfApprover && operator.tenantChosen && isHumanPrincipal operator

/-- The settings the modelled functions read. -/
structure Settings where
  approvalDefaultTtlSeconds : Int
  approvalAllowSelfApproval : Bool
  approvalAllowDelegatedDecision : Bool
  freshSignInMaxAgeSeconds : Int
  perActionSignInMaxAgeSeconds : Int
  keycloakCliApproveClientId : String
  approvalOneTimeCodeAcrValues : List String
  ttl_ge : 60 ≤ approvalDefaultTtlSeconds
  fresh_ge : 30 ≤ freshSignInMaxAgeSeconds
  fresh_le : freshSignInMaxAgeSeconds ≤ 3600
  perAction_ge : 30 ≤ perActionSignInMaxAgeSeconds
  perAction_le : perActionSignInMaxAgeSeconds ≤ 3600

/-- The defaults of the field declarations. -/
def Settings.default : Settings where
  approvalDefaultTtlSeconds := 14 * 24 * 3600
  approvalAllowSelfApproval := false
  approvalAllowDelegatedDecision := false
  freshSignInMaxAgeSeconds := 900
  perActionSignInMaxAgeSeconds := 300
  keycloakCliApproveClientId := "meho-cli-approve"
  approvalOneTimeCodeAcrValues := []
  ttl_ge := by decide
  fresh_ge := by decide
  fresh_le := by decide
  perAction_ge := by decide
  perAction_le := by decide

/-- `_FLOORS`: the lowest role a person needs for an operation, where one is registered. -/
abbrev RoleFloors := String → Option TenantRole

/-- Why a role may not run an operation, `none` when it may. -/
def roleFloorDenial (floors : RoleFloors) (opId : String) (role : TenantRole) : Option String :=
  match floors opId with
  | none => none
  | some floor =>
    if floor.order ≤ role.order then none
    else some s!"{opId} needs the {floor.value} role; your role is {role.value}"

/-- The highest role meets every floor. -/
theorem roleFloorDenial_tenantAdmin (floors : RoleFloors) (opId : String) :
    roleFloorDenial floors opId .tenantAdmin = none := by
  unfold roleFloorDenial
  cases floors opId with
  | none => rfl
  | some floor => cases floor <;> rfl

end Meho
