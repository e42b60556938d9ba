import Meho.Policy.Gate

/- A hosted agent's run under its caller (`_direct_run_verdict` of
operations/_validate.py).

The run should get the stricter of two verdicts, the agent's and the caller's.
The code leaves the caller's verdict out when the agent's call waits and the
caller is no agent, because such a caller is thought never to be denied then.
It can be: a person below the operation's role floor is denied before anything
else, and a service principal is denied a read outside its scope also when the
hosted agent would have to wait for it. `directRunVerdict_strictest_iff` is the
exact condition under which the two verdicts are combined as they should be. -/
namespace Meho.Policy
open Meho.Dispatch
open PermissionVerdict

/-- The hosted agent's call waits: no permission row denies it, and a row or the agent's floor
asks for approval. -/
def hostedAgentWaits (x : PolicyContext) (c : PolicyCall) (actorSub : String) : Prop :=
  let agent := hostedAgent c.operator actorSub
  let row := rowVerdict x.permissions x.now agent c.descriptor c.targetId
  row ≠ deny ∧ (row = needsApproval ∨ agentFloor agent c.descriptor = needsApproval)

theorem hostedAgentVerdict_waits (x : PolicyContext) (c : PolicyCall) (actorSub : String) :
    (hostedAgentVerdict x c actorSub).1 = needsApproval ↔ hostedAgentWaits x c actorSub :=
  agentVerdict_needsApproval _ _ _ _ _

variable {x : PolicyContext} {c : PolicyCall}

/-- Where the caller's verdict is worked out, the stricter of the two is the answer. -/
theorem directRunVerdict_combined {actorSub : String}
    (h : ¬((hostedAgentVerdict x c actorSub).1 = needsApproval ∧ c.operator.principalKind ≠ .agent)) :
    (directRunVerdict x c actorSub).verdict =
      max (hostedAgentVerdict x c actorSub).1 (callerVerdict x c).verdict := by
  unfold directRunVerdict
  simp only
  by_cases hdeny : (hostedAgentVerdict x c actorSub).1 = deny
  · -- a denial is the strictest verdict there is
    rw [if_pos hdeny, hdeny]
    cases (callerVerdict x c).verdict <;> rfl
  · rw [if_neg hdeny, if_neg h, moreRestrictive_eq_max]
    split
    · rename_i hown
      rw [max_comm]
      exact hown.symm
    · rename_i hown
      rw [max_comm]
      exact ((max_choice _ _).resolve_left hown).symm

theorem directRunVerdict_skipped {actorSub : String}
    (hwaits : (hostedAgentVerdict x c actorSub).1 = needsApproval)
    (hkind : c.operator.principalKind ≠ .agent) :
    (directRunVerdict x c actorSub).verdict = needsApproval := by
  unfold directRunVerdict
  simp only
  rw [if_neg (by rw [hwaits]; decide), if_pos ⟨hwaits, hkind⟩]
  exact hwaits

theorem callerDenied_ne_agent (h : callerDenied x c = true) :
    c.operator.principalKind ≠ .agent := by
  intro hkind
  simp [callerDenied, hkind] at h

/-- **The run gets the stricter of the two verdicts, except exactly when the hosted agent's call
waits and its caller, a person or a service principal, is denied.** -/
theorem directRunVerdict_strictest_iff (x : PolicyContext) (c : PolicyCall) (actorSub : String) :
    (directRunVerdict x c actorSub).verdict =
        max (hostedAgentVerdict x c actorSub).1 (callerVerdict x c).verdict ↔
      ¬(hostedAgentWaits x c actorSub ∧ callerDenied x c = true) := by
  rw [← hostedAgentVerdict_waits]
  by_cases hskip : (hostedAgentVerdict x c actorSub).1 = needsApproval ∧
      c.operator.principalKind ≠ .agent
  · -- the run waits, so the two agree unless the caller is denied
    obtain ⟨hwaits, hkind⟩ := hskip
    have hcaller : callerVerdict x c = nonAgentVerdict x c := if_neg hkind
    have hdeny := nonAgentVerdict_deny (x := x) hkind
    rw [directRunVerdict_skipped hwaits hkind, hwaits, hcaller]
    simp only [true_and, ← hdeny]
    cases (nonAgentVerdict x c).verdict <;> decide
  · constructor
    · rintro - ⟨hwaits, hdenied⟩
      exact hskip ⟨hwaits, callerDenied_ne_agent hdenied⟩
    · intro _
      exact directRunVerdict_combined hskip

/-! ## A call the combination misses -/

/-- A person with the operator role lets a hosted agent register a target. -/
def registerCall : PolicyCall where
  operator := caller "asker" .user .operator
  actorSub := some "agent:onboarder"
  descriptor := ⟨"targets.register", .caution, false, none, [], .obj []⟩
  target := none
  connectorId := some "targets-registry-1.x"
  previewHash := none
  params := some []
  decideOnly := false

/-- The person would be denied, the agent would wait, and the run waits instead of being
denied. -/
theorem direct_run_waits_where_caller_is_denied :
    (callerVerdict quietContext registerCall).verdict = deny ∧
      (hostedAgentVerdict quietContext registerCall "agent:onboarder").1 = needsApproval ∧
      (directRunVerdict quietContext registerCall "agent:onboarder").verdict = needsApproval ∧
      (directRunVerdict quietContext registerCall "agent:onboarder").verdict ≠
        max (hostedAgentVerdict quietContext registerCall "agent:onboarder").1
          (callerVerdict quietContext registerCall).verdict := by
  decide

end Meho.Policy
