import Mathlib.Data.List.Perm.Basic
import Meho.Policy.Permissions

/- The verdict for a safety level given as text (auth/permissions.py).

`resolve_verdict` takes the level as a string. A level it does not know has a
default, the denial, and no ceiling. So the verdict of a level other than `safe` never
runs at once where the level is known; for an unknown one it does if every most
specific row lets it run.

Correspondence: each function keeps its name, over a text level. -/
namespace Meho.Policy.LevelText
open Meho.Dispatch PermissionVerdict

def knownLevels : List String := ["safe", "caution", "dangerous", "destructive"]

/-- `_SAFETY_DEFAULT.get(safety_level, DENY)`. -/
def safetyDefault (level : String) : PermissionVerdict :=
  if level = "safe" then autoExecute
  else if knownLevels.contains level then needsApproval
  else deny

/-- `_SAFETY_CEILING.get(safety_level)`. -/
def safetyCeiling (level : String) : Option PermissionVerdict :=
  if level = "safe" then none
  else if knownLevels.contains level then some needsApproval
  else none

def applyCeiling (verdict : PermissionVerdict) (level : String) : PermissionVerdict :=
  match safetyCeiling level with
  | none => verdict
  | some ceiling => moreRestrictive verdict ceiling

/-- The rows of the highest specificity. -/
def topRows (rows : List AgentPermission) : List AgentPermission :=
  let top := (rows.map fun r => patternSpecificity r.opPattern).foldl max 0
  rows.filter fun r => patternSpecificity r.opPattern = top

/-- The patterns of tied rows, in order. -/
def tiedPatterns (rows : List AgentPermission) : List String :=
  (rows.map (·.opPattern)).mergeSort fun a b => decide (a ≤ b)

def pickRawVerdict (rows : List AgentPermission) (level : String) : PermissionVerdict × String :=
  match topRows rows with
  | [] => (safetyDefault level, "safety_level default (" ++ level ++ ")")
  | [row] => (row.verdict, "permission row (pattern=" ++ quoted row.opPattern ++ ")")
  | row :: rest =>
    (rest.foldl (fun verdict r => moreRestrictive verdict r.verdict) row.verdict,
      "most-restrictive of tied rows (patterns=" ++
        ", ".intercalate (tiedPatterns (row :: rest)) ++ ")")

def finalizeVerdict (raw : PermissionVerdict) (level : String) (role : TenantRole)
    (source : String) : PermissionVerdict × String :=
  let afterOp := applyCeiling raw level
  let final :=
    match roleCeiling role with
    | none => afterOp
    | some ceiling => moreRestrictive afterOp ceiling
  (final, "; ".intercalate
    (["verdict=" ++ final.value, "source=" ++ source] ++
      (if afterOp ≠ raw then
        ["tightened by safety_level ceiling (" ++ level ++ "→" ++ afterOp.value ++ ")"]
      else []) ++
      (if afterOp ≠ final then
        ["tightened by role ceiling (" ++ role.value ++ "→" ++ final.value ++ ")"]
      else [])))

def resolveVerdict (rows : List AgentPermission) (now : Time) (operator : Operator)
    (opId : String) (level : String) (targetId : Option Nat) : PermissionVerdict × String :=
  let raw := pickRawVerdict (matchingRows rows now operator opId targetId) level
  finalizeVerdict raw.1 level operator.tenantRole raw.2

/-! ## The order of the rows -/

variable {rows rows' : List AgentPermission}

theorem topRows_perm (h : rows.Perm rows') : (topRows rows).Perm (topRows rows') := by
  have htop : (rows.map fun r => patternSpecificity r.opPattern).foldl max 0 =
      (rows'.map fun r => patternSpecificity r.opPattern).foldl max 0 :=
    (h.map _).foldl_eq 0
  unfold topRows
  simp only [htop]
  exact h.filter _

theorem tiedPatterns_perm (h : rows.Perm rows') : tiedPatterns rows = tiedPatterns rows' := by
  have htrans : ∀ a b c : String, decide (a ≤ b) = true → decide (b ≤ c) = true →
      decide (a ≤ c) = true := by
    intro a b c hab hbc
    exact decide_eq_true (String.le_trans (of_decide_eq_true hab) (of_decide_eq_true hbc))
  have htotal : ∀ a b : String, (decide (a ≤ b) || decide (b ≤ a)) = true := by
    intro a b
    rw [Bool.or_eq_true, decide_eq_true_iff, decide_eq_true_iff]
    exact String.le_total a b
  refine List.Perm.eq_of_pairwise ?_ (List.pairwise_mergeSort htrans htotal _)
    (List.pairwise_mergeSort htrans htotal _)
    ((List.mergeSort_perm _ _).trans ((h.map _).trans (List.mergeSort_perm _ _).symm))
  intro a b _ _ hab hba
  exact String.le_antisymm (of_decide_eq_true hab) (of_decide_eq_true hba)

/-- The strictest verdict of some rows. -/
def strictest (rows : List AgentPermission) : PermissionVerdict :=
  (rows.map (·.verdict)).foldl max autoExecute

theorem strictest_perm (h : rows.Perm rows') : strictest rows = strictest rows' :=
  (h.map _).foldl_eq autoExecute

theorem foldl_moreRestrictive (rest : List AgentPermission) (v : PermissionVerdict) :
    rest.foldl (fun verdict r => moreRestrictive verdict r.verdict) v =
      (rest.map (·.verdict)).foldl max v := by
  induction rest generalizing v with
  | nil => rfl
  | cons r rest ih =>
    rw [List.foldl_cons, ih, List.map_cons, List.foldl_cons, moreRestrictive_eq_max]

theorem max_autoExecute (v : PermissionVerdict) : max autoExecute v = v := by
  cases v <;> decide

theorem strictest_cons (row : AgentPermission) (rest : List AgentPermission) :
    strictest (row :: rest) = rest.foldl (fun verdict r => moreRestrictive verdict r.verdict)
      row.verdict := by
  rw [foldl_moreRestrictive]
  show (rest.map (·.verdict)).foldl max (max autoExecute row.verdict) = _
  rw [max_autoExecute]

/-- A running maximum bounds its start and its values, and is one of them. -/
theorem foldl_max_spec {α : Type} [LinearOrder α] (values : List α) (start : α) :
    start ≤ values.foldl max start ∧ (∀ v ∈ values, v ≤ values.foldl max start) ∧
      (values.foldl max start = start ∨ values.foldl max start ∈ values) := by
  induction values generalizing start with
  | nil => simp
  | cons x values ih =>
    obtain ⟨hstart, hall, hpick⟩ := ih (max start x)
    refine ⟨le_trans (le_max_left start x) hstart, ?_, ?_⟩
    · intro v hv
      cases List.mem_cons.mp hv with
      | inl heq =>
        subst heq
        exact le_trans (le_max_right start v) hstart
      | inr htail => exact hall v htail
    · cases hpick with
      | inr hmem => exact Or.inr (List.mem_cons_of_mem x hmem)
      | inl heq =>
        rw [List.foldl_cons, heq]
        cases max_choice start x with
        | inl hleft => exact Or.inl hleft
        | inr hright =>
          rw [hright]
          exact Or.inr List.mem_cons_self

theorem le_strictest {row : AgentPermission} (h : row ∈ rows) : row.verdict ≤ strictest rows :=
  (foldl_max_spec (rows.map (·.verdict)) autoExecute).2.1 _ (List.mem_map.mpr ⟨row, h, rfl⟩)

theorem strictest_eq_autoExecute (h : ∀ row ∈ rows, row.verdict = autoExecute) :
    strictest rows = autoExecute := by
  induction rows with
  | nil => rfl
  | cons row rows ih =>
    rw [strictest_cons, foldl_moreRestrictive, h row List.mem_cons_self]
    exact ih fun r hr => h r (List.mem_cons_of_mem _ hr)

theorem topRows_ne_nil (h : rows ≠ []) : topRows rows ≠ [] := by
  obtain ⟨row, hrow⟩ := List.exists_mem_of_ne_nil rows h
  obtain ⟨-, hall, hpick⟩ := foldl_max_spec (rows.map fun r => patternSpecificity r.opPattern) 0
  have htop : ∃ r ∈ rows, patternSpecificity r.opPattern =
      (rows.map fun r => patternSpecificity r.opPattern).foldl max 0 := by
    cases hpick with
    | inl hzero =>
      -- the maximum is 0, and so is the specificity of every row
      have hle := hall _ (List.mem_map.mpr ⟨row, hrow, rfl⟩)
      rw [hzero] at hle ⊢
      exact ⟨row, hrow, Nat.le_zero.mp hle⟩
    | inr hmem =>
      obtain ⟨r, hr, heq⟩ := List.mem_map.mp hmem
      exact ⟨r, hr, heq⟩
  obtain ⟨r, hr, heq⟩ := htop
  exact List.ne_nil_of_mem (List.mem_filter.mpr ⟨hr, decide_eq_true heq⟩)

/-! ## The verdict -/

theorem pickRawVerdict_nil (h : topRows rows = []) (level : String) :
    pickRawVerdict rows level =
      (safetyDefault level, "safety_level default (" ++ level ++ ")") := by
  unfold pickRawVerdict
  rw [h]

theorem pickRawVerdict_fst (h : topRows rows ≠ []) (level : String) :
    (pickRawVerdict rows level).1 = strictest (topRows rows) := by
  unfold pickRawVerdict
  match htop : topRows rows with
  | [] => exact absurd htop h
  | [row] => exact (max_autoExecute row.verdict).symm
  | row :: next :: rest => exact (strictest_cons row (next :: rest)).symm

theorem pickRawVerdict_perm (h : rows.Perm rows') (level : String) :
    pickRawVerdict rows level = pickRawVerdict rows' level := by
  have hperm := topRows_perm h
  unfold pickRawVerdict
  match htop : topRows rows with
  | [] =>
    rw [htop] at hperm
    rw [hperm.nil_eq.symm]
  | [row] =>
    rw [htop] at hperm
    rw [List.singleton_perm.mp hperm |>.symm]
  | row :: next :: rest =>
    rw [htop] at hperm
    match htop' : topRows rows' with
    | [] => exact absurd (htop' ▸ hperm).length_eq (by simp)
    | [row'] => exact absurd (htop' ▸ hperm).length_eq (by simp)
    | row' :: next' :: rest' =>
      rw [htop'] at hperm
      simp only
      rw [← strictest_cons, ← strictest_cons, strictest_perm hperm, tiedPatterns_perm hperm]

theorem matchingRows_perm (h : rows.Perm rows') (now : Time) (operator : Operator) (opId : String)
    (targetId : Option Nat) :
    (matchingRows rows now operator opId targetId).Perm
      (matchingRows rows' now operator opId targetId) :=
  (h.filter _).filter _

/-- What a level and a role allow at most. -/
def ceilings (level : String) (role : TenantRole) : PermissionVerdict :=
  max ((safetyCeiling level).getD autoExecute) ((roleCeiling role).getD autoExecute)

theorem finalizeVerdict_fst (raw : PermissionVerdict) (level : String) (role : TenantRole)
    (source : String) :
    (finalizeVerdict raw level role source).1 = max raw (ceilings level role) := by
  unfold finalizeVerdict applyCeiling ceilings
  cases safetyCeiling level with
  | none =>
    cases roleCeiling role with
    | none => cases raw <;> rfl
    | some ceiling => cases raw <;> cases ceiling <;> rfl
  | some level =>
    cases roleCeiling role with
    | none => cases raw <;> cases level <;> rfl
    | some ceiling => cases raw <;> cases level <;> cases ceiling <;> rfl

theorem ceilings_eq_autoExecute {level : String} {role : TenantRole} :
    ceilings level role = autoExecute ↔
      (level = "safe" ∨ level ∉ knownLevels) ∧ role ≠ .readOnly := by
  unfold ceilings safetyCeiling
  by_cases hsafe : level = "safe"
  · rw [if_pos hsafe]
    cases role with
    | readOnly =>
      simp only [hsafe, roleCeiling]
      decide
    | _ => simp [hsafe, roleCeiling]
  · rw [if_neg hsafe]
    by_cases hknown : level ∈ knownLevels
    · rw [if_pos (List.contains_iff_mem.mpr hknown)]
      cases role <;> simp [hsafe, hknown, roleCeiling] <;> decide
    · rw [if_neg (fun h => hknown (List.contains_iff_mem.mp h))]
      cases role with
      | readOnly =>
        have hstrict : max autoExecute needsApproval ≠ autoExecute := by decide
        simp [roleCeiling, hstrict]
      | _ => simp [hknown, roleCeiling]

/-- **When a verdict fails closed.** The order of the rows never matters and a denial among the
most specific rows always wins. A level other than `safe` never runs at once exactly where the
level is known, the role is read-only, no row matches, or a most specific row asks for more. -/
theorem verdict_fails_closed_iff (rows : List AgentPermission) (now : Time) (operator : Operator)
    (opId level : String) (targetId : Option Nat) :
    ((∀ rows', rows.Perm rows' →
        resolveVerdict rows' now operator opId level targetId =
          resolveVerdict rows now operator opId level targetId) ∧
      ((∃ row ∈ topRows (matchingRows rows now operator opId targetId), row.verdict = deny) →
        (resolveVerdict rows now operator opId level targetId).1 = deny) ∧
      (level ≠ "safe" →
        (resolveVerdict rows now operator opId level targetId).1 ≠ autoExecute)) ↔
    (level ∈ knownLevels ∨ operator.tenantRole = .readOnly ∨
      matchingRows rows now operator opId targetId = [] ∨
      ∃ row ∈ topRows (matchingRows rows now operator opId targetId),
        row.verdict ≠ autoExecute) := by
  have hfst : (resolveVerdict rows now operator opId level targetId).1 =
      max (pickRawVerdict (matchingRows rows now operator opId targetId) level).1
        (ceilings level operator.tenantRole) := finalizeVerdict_fst _ _ _ _
  constructor
  · rintro ⟨-, -, hclosed⟩
    by_contra hopen
    simp only [not_or, not_exists, not_and, ne_eq, not_not] at hopen
    obtain ⟨hlevel, hrole, hmatch, hrows⟩ := hopen
    have hsafe : level ≠ "safe" := by
      rintro rfl
      exact hlevel (by decide)
    refine hclosed hsafe ?_
    rw [hfst, pickRawVerdict_fst (topRows_ne_nil hmatch), strictest_eq_autoExecute hrows,
      max_eq_autoExecute]
    exact ⟨rfl, ceilings_eq_autoExecute.mpr ⟨Or.inr hlevel, hrole⟩⟩
  · intro hcond
    refine ⟨?_, ?_, ?_⟩
    · intro rows' h
      unfold resolveVerdict
      rw [pickRawVerdict_perm (matchingRows_perm h now operator opId targetId) level]
    · rintro ⟨row, hrow, hdeny⟩
      rw [hfst, pickRawVerdict_fst (List.ne_nil_of_mem hrow)]
      have hle := le_strictest hrow
      rw [hdeny] at hle
      revert hle
      cases strictest (topRows (matchingRows rows now operator opId targetId)) <;>
        cases ceilings level operator.tenantRole <;> decide
    · intro hsafe hauto
      rw [hfst, max_eq_autoExecute, ceilings_eq_autoExecute] at hauto
      obtain ⟨hraw, hlevel, hrole⟩ := hauto
      rcases hcond with hknown | hreadOnly | hnone | ⟨row, hrow, hverdict⟩
      · exact hlevel.elim hsafe fun h => h hknown
      · exact hrole hreadOnly
      · -- no row matches: the level's default is not to run at once
        rw [hnone, pickRawVerdict_nil rfl] at hraw
        simp only [safetyDefault, if_neg hsafe] at hraw
        split at hraw <;> cases hraw
      · rw [pickRawVerdict_fst (List.ne_nil_of_mem hrow)] at hraw
        have hle := le_strictest hrow
        rw [hraw] at hle
        revert hle hverdict
        cases row.verdict <;> decide

/-! ## A level the code does not know -/

def agentOperator : Operator where
  sub := "agent:nightly"
  name := none
  tenantId := 1
  tenantRole := .operator
  principalKind := .agent
  approver := false
  selfApprover := false
  tenantChosen := false
  roleFromPlatformAdmin := false
  webSession := false
  clientId := none
  azp := none
  authTime := none
  sid := none
  acr := none

/-- A row that lets the agent run everything at once. -/
def catchAllRow : AgentPermission := ⟨1, "agent:nightly", "*", some "*", autoExecute, none⟩

/-- Under such a row an operation of an unknown level runs at once. -/
theorem unknown_level_runs_at_once :
    (resolveVerdict [catchAllRow] 0 agentOperator "vault.kv.delete" "critical" none).1 =
        autoExecute ∧
      ¬∀ rows now operator opId level targetId, level ≠ "safe" →
        (resolveVerdict rows now operator opId level targetId).1 ≠ autoExecute := by
  have hruns : (resolveVerdict [catchAllRow] 0 agentOperator "vault.kv.delete" "critical" none).1 =
      autoExecute := by decide
  exact ⟨hruns, fun h => h _ _ _ _ _ _ (by decide) hruns⟩

end Meho.Policy.LevelText
