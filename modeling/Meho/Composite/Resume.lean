import Meho.Approval.Guarantees
import Meho.Policy.Gate

/- The re-entry of a composite after the approval of one of its steps
(operations/composite.py, approval_queue.py, dispatcher.py).

An approved step has no call of its own to repeat: its composite runs again
from the start, and the steps it calls find the approval in context variables.
`RunVars` are these variables. A body may call any steps in any order, on the
direct seam (`SubCall.step`) or through the dispatcher (`SubCall.child`), and
a child that is a composite runs its own body under the same variables until
`SubCall.leave`. So a body is a list of calls here, and a run of it is a run of
`reentry`. One task runs a body, so a variable set by one call is what the next
one reads.

`resume_guarded` is what holds of every body. The approval of the run covers
more than the one step: every other step that only waits, unless it is
destructive or asks for its own approval (`covered_step_runs`).

Correspondence: `composite_resume_var`, `composite_resume_scope_var`,
`composite_resume_state_var`, `resume_requester_var`, `approved_run_var` ↔ the fields
of `RunVars`, `composite_dispatch_var` ↔ `RunVars.composite`, `composite_depth_var` ↔
`RunVars.depth`, `enforce_subop_policy` ↔ `enforceSubopPolicy` (its park is
`Dispatch.enforceSubopPolicy`), `_dispatch_child` and the gate of `dispatch` ↔
`dispatchChild`; what is not listed keeps its name. -/
namespace Meho.Composite
open Meho.Lib Meho.Dispatch Meho.Policy
open Meho.Approval (Params CreateArgs ResumeParent ResumeRequester Deployment Hashing
  paramsHashMatches)
open PermissionVerdict

/-! ## The variables of a run -/

/-- What a parked step saved for the resume of its composite. -/
structure CompositeResumeState where
  opId : String
  state : Dict
  afterMainEffect : Bool

/-- The context variables. `stack` holds the composites whose bodies are running, the innermost
first, each with its params. -/
structure RunVars where
  resume : Option (String × String)
  scope : Option (String × String)
  state : Option CompositeResumeState
  requester : Option ResumeRequester
  approvedRun : Bool
  stack : List (String × Params)

namespace RunVars

/-- The composite whose body is running. -/
def composite (v : RunVars) : Option (String × Params) := v.stack.head?

/-- How deep the running body is below the call that was dispatched. -/
def depth (v : RunVars) : Nat := v.stack.length - 1

end RunVars

/-- The variables a re-entry starts with: the approved step, the state its park saved, and the
composite that is dispatched again under the approval. -/
def compositeParentBinding (subopOpId subopParamsHash : String) (parent : ResumeParent)
    (requester : Option ResumeRequester) : RunVars where
  resume := some (subopOpId, subopParamsHash)
  scope := some (subopOpId, subopParamsHash)
  state :=
    match parent.state with
    | some (.obj state) => some ⟨parent.opId, state, parent.afterMainEffect⟩
    | _ => none
  requester := requester
  approvedRun := true
  stack := [(parent.opId, parent.params.getD [])]

/-! ## A step on the direct seam -/

/-- The arguments of `enforce_subop_policy`, with what the gate and a park find. -/
structure StepCall where
  operator : Operator
  actorSub : Option String
  connectorId : String
  opId : String
  safetyLevel : SafetyLevel
  requiresApproval : Bool
  target : Option DispatchTarget
  params : Params
  resumeState : Option Dict
  afterMainEffect : Bool
  gate : PolicyContext
  park : ParkContext

/-- The descriptor that exists only for the gate. -/
def StepCall.descriptor (c : StepCall) : EndpointDescriptor :=
  ⟨c.opId, c.safetyLevel, c.requiresApproval, none, [], .obj []⟩

/-- The step as the gate gets it. It brings no preview hash. -/
def StepCall.policyCall (c : StepCall) : PolicyCall where
  operator := c.operator
  actorSub := c.actorSub
  descriptor := c.descriptor
  target := c.target
  connectorId := some c.connectorId
  previewHash := none
  params := some c.params
  decideOnly := false

/-- The step as it gets to a park. -/
def StepCall.effectCall (c : StepCall) : EffectCall :=
  ⟨c.operator, c.actorSub, c.connectorId, c.descriptor, c.target.bind (·.id), c.params⟩

/-- Why a step does not run. -/
inductive StepRefusal where
  | resumeStateMissing
  | resumeRepeatsWrite (compositeOpId approvedOpId blockedOpId : String)
  | resumeMultiGateUnsupported (compositeOpId approvedOpId blockedOpId : String)
  | notParked (refusal : ParkRefusal)
  | recursionLimitExceeded (attemptedDepth : Nat)
  | notAdmitted
  | agentReveal
  | announceRequired

/-- How the check of a step ends. With the first three the step runs: it is the approved one, the
gate lets it through, or the approval of the run covers it. -/
inductive SubResult where
  | cleared
  | autoExecutes
  | covered
  | refused (refusal : StepRefusal)
  | awaiting (args : CreateArgs)
  | denied (reason : String)

def SubResult.goesAhead : SubResult → Bool
  | .cleared | .autoExecutes | .covered => true
  | _ => false

def SubResult.isCleared : SubResult → Bool
  | .cleared => true
  | _ => false

/-- The step is the approved one. -/
def subopResumeCleared (H : Hashing) (v : RunVars) (opId : String) (params : Params) : Bool :=
  match v.resume with
  | some (approvedOpId, approvedHash) =>
    approvedOpId = opId && paramsHashMatches H params approvedHash
  | none => false

/-- The resume has to go straight to the approved step and has not run it yet. -/
def resumeHasNotReachedApprovedStep (v : RunVars) : Bool :=
  match v.state with
  | some bound => bound.afterMainEffect && v.resume.isSome
  | none => false

/-- The approval of the run covers a waiting step. -/
def coveredByApprovedRun (v : RunVars) (safetyLevel : SafetyLevel) (requiresApproval : Bool) :
    Bool :=
  if safetyLevel = .destructive || requiresApproval then false
  else v.approvedRun || v.scope.isSome

/-- What a parked step stores of its composite. -/
def resumeParentForCurrentComposite (v : RunVars) (resumeState : Option Dict)
    (afterMainEffect : Bool) : Option ResumeParent :=
  v.composite.map fun composite =>
    ⟨composite.1, some composite.2, resumeState.map .obj, afterMainEffect⟩

/-- The name of a composite in a refusal. -/
def RunVars.compositeOpId (v : RunVars) : String := (v.composite.map (·.1)).getD "<unknown>"

def opIdOf (approved : Option (String × String)) : String :=
  (approved.map (·.1)).getD "<unknown>"

/-- A waiting step that nothing covers: it is parked, except in a resume where its own resume
would repeat writes. -/
def waitingStep (D : Deployment) (v : RunVars) (c : StepCall) : SubResult :=
  if v.scope.isSome && !c.afterMainEffect then
    .refused (.resumeMultiGateUnsupported v.compositeOpId (opIdOf v.scope) c.opId)
  else
    match Dispatch.enforceSubopPolicy D c.park c.effectCall
        (resumeParentForCurrentComposite v c.resumeState c.afterMainEffect) v.requester with
    | .ok args => .awaiting args
    | .error refusal => .refused (.notParked refusal)

/-- The gate of a step that is not the approved one. -/
def gatedStep (D : Deployment) (v : RunVars) (c : StepCall) : SubResult :=
  let ruling := policyGate c.gate c.policyCall
  match ruling.verdict with
  | .autoExecute => .autoExecutes
  | .needsApproval =>
    if coveredByApprovedRun v c.safetyLevel c.requiresApproval then .covered
    else waitingStep D v c
  | .deny => .denied (ruling.reason.getD "policy denied")

def enforceSubopPolicy (D : Deployment) (v : RunVars) (c : StepCall) : RunVars × SubResult :=
  if c.afterMainEffect && c.resumeState.isNone then (v, .refused .resumeStateMissing)
  -- the approval is used up, so an equal step later in the body does not clear again
  else if subopResumeCleared D.hashing v c.opId c.params then ({ v with resume := none }, .cleared)
  else if !c.afterMainEffect && resumeHasNotReachedApprovedStep v then
    (v, .refused (.resumeRepeatsWrite v.compositeOpId (opIdOf v.resume) c.opId))
  else (v, gatedStep D v c)

/-! ## A child call through the dispatcher -/

/-- The arguments of `dispatch_child`, with what the dispatcher finds: whether it admits the call
up to the gate (lookup, params), and whether the announce gate blocks it after. The flag that
asks for hidden values is taken out of the params. -/
structure ChildCall where
  operator : Operator
  actorSub : Option String
  connectorId : String
  descriptor : EndpointDescriptor
  isComposite : Bool
  target : Option DispatchTarget
  params : Params
  revealSecret : Bool
  admitted : Bool
  announceBlocks : Bool
  gate : PolicyContext
  park : ParkContext

def ChildCall.policyCall (c : ChildCall) : PolicyCall where
  operator := c.operator
  actorSub := c.actorSub
  descriptor := c.descriptor
  target := c.target
  connectorId := some c.connectorId
  previewHash := none
  params := some c.params
  decideOnly := false

def ChildCall.effectCall (c : ChildCall) : EffectCall :=
  ⟨c.operator, c.actorSub, c.connectorId, c.descriptor, c.target.bind (·.id), c.params⟩

/-- The depth of the next child, an error beyond the cap. -/
def checkCompositeDepth (maxDepth : Nat) (v : RunVars) : Except StepRefusal Nat :=
  if v.depth + 1 > maxDepth then .error (.recursionLimitExceeded (v.depth + 1))
  else .ok (v.depth + 1)

/-- A child step of an approved run goes ahead under that approval. -/
def childCovered (v : RunVars) (descriptor : EndpointDescriptor) : Bool :=
  v.approvedRun && descriptor.safetyLevel ≠ .destructive && !descriptor.requiresApproval

def agentActs (c : ChildCall) : Bool := c.operator.principalKind = .agent || c.actorSub.isSome

def revealWaitsForApproval (c : ChildCall) : Bool :=
  c.revealSecret && c.operator.principalKind ≠ .user

def parkedChild (D : Deployment) (c : ChildCall) : SubResult :=
  match handleNeedsApproval D c.park c.effectCall none none c.revealSecret with
  | .ok args => .awaiting args
  | .error refusal => .refused (.notParked refusal)

/-- A child that the gate or the run's approval lets through: hidden values may still have to
wait, and the announce gate may block it. -/
def passedChild (D : Deployment) (c : ChildCall) (result : SubResult) : SubResult :=
  if revealWaitsForApproval c then parkedChild D c
  else if c.announceBlocks then .refused .announceRequired
  else result

def gatedChild (D : Deployment) (v : RunVars) (c : ChildCall) : SubResult :=
  let ruling := policyGate c.gate c.policyCall
  match ruling.verdict with
  | .autoExecute => passedChild D c .autoExecutes
  | .needsApproval =>
    if childCovered v c.descriptor then passedChild D c .covered else parkedChild D c
  | .deny => .denied (ruling.reason.getD "policy denied")

/-- A child that runs and is a composite starts its own body. -/
def dispatchChild (D : Deployment) (maxDepth : Nat) (v : RunVars) (c : ChildCall) :
    RunVars × SubResult :=
  match checkCompositeDepth maxDepth v with
  | .error refusal => (v, .refused refusal)
  | .ok _ =>
    if !c.admitted then (v, .refused .notAdmitted)
    else if c.revealSecret && agentActs c then (v, .refused .agentReveal)
    else
      let result := gatedChild D v c
      if result.goesAhead && c.isComposite then
        ({ v with stack := (c.descriptor.opId, c.params) :: v.stack }, result)
      else (v, result)

/-! ## A body -/

/-- What a body does next. -/
inductive SubCall where
  | step (c : StepCall)
  | child (c : ChildCall)
  | leave

/-- A call of a body and how its check ended. -/
inductive SubEvent where
  | step (c : StepCall) (result : SubResult)
  | child (c : ChildCall) (result : SubResult)

namespace SubEvent

def result : SubEvent → SubResult
  | step _ r | child _ r => r

/-- The gate's verdict on the call. -/
def verdict : SubEvent → PermissionVerdict
  | step c _ => (policyGate c.gate c.policyCall).verdict
  | child c _ => (policyGate c.gate c.policyCall).verdict

def descriptor : SubEvent → EndpointDescriptor
  | step c _ => c.descriptor
  | child c _ => c.descriptor

def params : SubEvent → Params
  | step c _ => c.params
  | child c _ => c.params

/-- The call runs. -/
def runs (e : SubEvent) : Bool := e.result.goesAhead

/-- The call runs as the approved step, without a gate. -/
def cleared (e : SubEvent) : Bool := e.result.isCleared

/-- A step of the direct seam that its composite does not place after its main change. -/
def repeatable : SubEvent → Bool
  | step c _ => !c.afterMainEffect
  | child _ _ => false

end SubEvent

/-- One call of the innermost body. A body that ended calls nothing. -/
def bodyStep (D : Deployment) (maxDepth : Nat) (v : RunVars) (a : SubCall) :
    RunVars × List SubEvent :=
  if v.stack.isEmpty then (v, [])
  else
    match a with
    | .step c =>
      let out := enforceSubopPolicy D v c
      (out.1, [.step c out.2])
    | .child c =>
      let out := dispatchChild D maxDepth v c
      (out.1, [.child c out.2])
    | .leave => ({ v with stack := v.stack.tail }, [])

/-- The re-entry of a composite after the approval of one of its steps. -/
def reentry (D : Deployment) (maxDepth : Nat) (subopOpId subopParamsHash : String)
    (parent : ResumeParent) (requester : Option ResumeRequester) :
    Machine RunVars SubCall SubEvent where
  start := compositeParentBinding subopOpId subopParamsHash parent requester
  step := bodyStep D maxDepth

/-! ## What one call may do -/

section Calls
variable {D : Deployment} {v : RunVars}

/-- A step that runs, other than the approved one, passed the gate or is covered. -/
theorem gatedStep_goesAhead {c : StepCall} (h : (gatedStep D v c).goesAhead = true) :
    gatedStep D v c = .autoExecutes ∧ (policyGate c.gate c.policyCall).verdict = autoExecute ∨
      gatedStep D v c = .covered ∧ (policyGate c.gate c.policyCall).verdict = needsApproval ∧
        c.safetyLevel ≠ .destructive ∧ c.requiresApproval = false := by
  unfold gatedStep at h ⊢
  simp only at h ⊢
  cases hverdict : (policyGate c.gate c.policyCall).verdict with
  | autoExecute => exact .inl ⟨rfl, rfl⟩
  | deny =>
    rw [hverdict] at h
    cases h
  | needsApproval =>
    rw [hverdict] at h
    simp only at h ⊢
    by_cases hcovered : coveredByApprovedRun v c.safetyLevel c.requiresApproval = true
    · refine .inr ⟨if_pos hcovered, trivial, ?_⟩
      unfold coveredByApprovedRun at hcovered
      split at hcovered
      · cases hcovered
      · rename_i hown
        simpa using hown
    · rw [if_neg hcovered] at h
      unfold waitingStep at h
      split at h
      · cases h
      · split at h <;> cases h

theorem SubResult.not_cleared {r : SubResult}
    (h : r.goesAhead = true → r = .autoExecutes ∨ r = .covered) : r.isCleared = false := by
  cases r with
  | cleared => rcases h rfl with hr | hr <;> cases hr
  | _ => rfl

theorem gatedStep_not_cleared (c : StepCall) : (gatedStep D v c).isCleared = false :=
  SubResult.not_cleared fun h => (gatedStep_goesAhead h).imp And.left And.left

theorem parkedChild_goesAhead (c : ChildCall) : (parkedChild D c).goesAhead = false := by
  unfold parkedChild
  split <;> rfl

theorem passedChild_goesAhead {c : ChildCall} {result : SubResult}
    (h : (passedChild D c result).goesAhead = true) : passedChild D c result = result := by
  unfold passedChild at h ⊢
  split at h
  · rw [parkedChild_goesAhead] at h
    cases h
  · rename_i hreveal
    rw [if_neg hreveal]
    split at h
    · cases h
    · rename_i hannounce
      exact if_neg hannounce

/-- A child that runs passed the gate or is covered. -/
theorem gatedChild_goesAhead {c : ChildCall} (h : (gatedChild D v c).goesAhead = true) :
    gatedChild D v c = .autoExecutes ∧ (policyGate c.gate c.policyCall).verdict = autoExecute ∨
      gatedChild D v c = .covered ∧ (policyGate c.gate c.policyCall).verdict = needsApproval ∧
        c.descriptor.safetyLevel ≠ .destructive ∧ c.descriptor.requiresApproval = false := by
  unfold gatedChild at h ⊢
  simp only at h ⊢
  cases hverdict : (policyGate c.gate c.policyCall).verdict with
  | autoExecute =>
    rw [hverdict] at h
    exact .inl ⟨passedChild_goesAhead h, rfl⟩
  | deny =>
    rw [hverdict] at h
    cases h
  | needsApproval =>
    rw [hverdict] at h
    simp only at h ⊢
    by_cases hcovered : childCovered v c.descriptor = true
    · rw [if_pos hcovered] at h ⊢
      simp only [childCovered, Bool.and_eq_true, decide_eq_true_eq, Bool.not_eq_true'] at hcovered
      exact .inr ⟨passedChild_goesAhead h, trivial, hcovered.1.2, hcovered.2⟩
    · rw [if_neg hcovered, parkedChild_goesAhead] at h
      cases h

theorem gatedChild_not_cleared (c : ChildCall) : (gatedChild D v c).isCleared = false :=
  SubResult.not_cleared fun h => (gatedChild_goesAhead h).imp And.left And.left

variable {args : CreateArgs}

theorem waitingStep_awaiting {c : StepCall} (h : waitingStep D v c = .awaiting args) :
    args.resumeParent = resumeParentForCurrentComposite v c.resumeState c.afterMainEffect := by
  unfold waitingStep at h
  split at h
  · cases h
  · split at h
    · rename_i hpark
      cases h
      unfold Dispatch.enforceSubopPolicy at hpark
      split at hpark
      · cases hpark
      · obtain ⟨effect, -, rfl⟩ := except_map_eq_ok hpark
        rfl
    · cases h

theorem gatedStep_awaiting {c : StepCall} (h : gatedStep D v c = .awaiting args) :
    args.resumeParent = resumeParentForCurrentComposite v c.resumeState c.afterMainEffect := by
  unfold gatedStep at h
  simp only at h
  split at h
  · cases h
  · split at h
    · cases h
    · exact waitingStep_awaiting h
  · cases h

theorem parkedChild_awaiting {c : ChildCall} (h : parkedChild D c = .awaiting args) :
    args.resumeParent = none := by
  unfold parkedChild at h
  split at h
  · rename_i hpark
    cases h
    unfold handleNeedsApproval at hpark
    split at hpark
    · cases hpark
    · cases hpark
    · cases hpark
    · obtain ⟨effect, -, rfl⟩ := except_map_eq_ok hpark
      rfl
  · cases h

theorem passedChild_awaiting {c : ChildCall} {result : SubResult}
    (hresult : result.goesAhead = true) (h : passedChild D c result = .awaiting args) :
    args.resumeParent = none := by
  unfold passedChild at h
  split at h
  · exact parkedChild_awaiting h
  · split at h
    · cases h
    · rw [h] at hresult
      cases hresult

theorem gatedChild_awaiting {c : ChildCall} (h : gatedChild D v c = .awaiting args) :
    args.resumeParent = none := by
  unfold gatedChild at h
  simp only at h
  split at h
  · exact passedChild_awaiting rfl h
  · split at h
    · exact passedChild_awaiting rfl h
    · exact parkedChild_awaiting h
  · cases h

end Calls

/-! ## Every call of a body -/

/-- A call that the gate let through, or that waits and that the approval of the run covers. -/
def SubEvent.Gated (e : SubEvent) : Prop :=
  e.verdict = autoExecute ∨
    e.verdict = needsApproval ∧ e.descriptor.safetyLevel ≠ .destructive ∧
      e.descriptor.requiresApproval = false

/-- A park that its resume can continue from. -/
def SubEvent.Resumable (e : SubEvent) : Prop :=
  ∀ args parent, e.result = .awaiting args → args.resumeParent = some parent →
    parent.afterMainEffect = true → ∃ state, parent.state = some (.obj state)

/-- What one call may do: `v` are the variables before it, `v'` after it. -/
structure CallStep (H : Hashing) (v v' : RunVars) (e : SubEvent) : Prop where
  state : v'.state = v.state
  marker : e.cleared = false ∧ v'.resume = v.resume ∨
    e.cleared = true ∧ v'.resume = none ∧ ∃ approved, v.resume = some approved ∧
      e.descriptor.opId = approved.1 ∧ paramsHashMatches H e.params approved.2 = true
  gated : e.runs = true → e.cleared = false → e.Gated
  straight : e.runs = true → e.cleared = false → e.repeatable = true →
    resumeHasNotReachedApprovedStep v = false
  resumable : e.Resumable

variable {D : Deployment} {maxDepth : Nat} {v : RunVars}

/-- A call that is refused changes nothing. -/
theorem CallStep.refused {e : SubEvent} {refusal : StepRefusal}
    (h : e.result = .refused refusal) : CallStep D.hashing v v e where
  state := rfl
  marker := .inl ⟨by rw [SubEvent.cleared, h]; rfl, rfl⟩
  gated hruns := by
    rw [SubEvent.runs, h] at hruns
    cases hruns
  straight hruns := by
    rw [SubEvent.runs, h] at hruns
    cases hruns
  resumable args parent hawaits := by
    rw [h] at hawaits
    cases hawaits

theorem enforceSubopPolicy_step (c : StepCall) :
    CallStep D.hashing v (enforceSubopPolicy D v c).1
      (.step c (enforceSubopPolicy D v c).2) := by
  unfold enforceSubopPolicy
  by_cases hmissing : (c.afterMainEffect && c.resumeState.isNone) = true
  · rw [if_pos hmissing]
    exact .refused rfl
  rw [if_neg hmissing]
  by_cases hcleared : subopResumeCleared D.hashing v c.opId c.params = true
  · rw [if_pos hcleared]
    unfold subopResumeCleared at hcleared
    split at hcleared
    · rename_i approvedOpId approvedHash hresume
      rw [Bool.and_eq_true, decide_eq_true_eq] at hcleared
      refine ⟨rfl, .inr ⟨rfl, rfl, _, hresume, hcleared.1.symm, hcleared.2⟩, ?_, ?_, ?_⟩
      · intro _ hnot
        cases hnot
      · intro _ hnot
        cases hnot
      · intro args parent hawaits
        cases hawaits
    · cases hcleared
  rw [if_neg hcleared]
  by_cases hrepeats : (!c.afterMainEffect && resumeHasNotReachedApprovedStep v) = true
  · rw [if_pos hrepeats]
    exact .refused rfl
  rw [if_neg hrepeats]
  refine ⟨rfl, .inl ⟨gatedStep_not_cleared c, rfl⟩, ?_, ?_, ?_⟩
  · intro hruns _
    rcases gatedStep_goesAhead hruns with ⟨-, hauto⟩ | ⟨-, hneeds, hlevel, happroval⟩
    · exact .inl hauto
    · exact .inr ⟨hneeds, hlevel, happroval⟩
  · intro _ _ hrepeatable
    simp only [SubEvent.repeatable] at hrepeatable
    simpa [hrepeatable] using hrepeats
  · intro args parent hawaits hparent hmain
    rw [gatedStep_awaiting hawaits] at hparent
    unfold resumeParentForCurrentComposite at hparent
    obtain ⟨composite, -, rfl⟩ := Option.map_eq_some_iff.mp hparent
    -- the state is there, or the step had been refused at once
    simp only at hmain
    simp only [hmain, Bool.true_and, Bool.not_eq_true, Option.isNone_eq_false_iff] at hmissing
    obtain ⟨state, hstate⟩ := Option.isSome_iff_exists.mp hmissing
    exact ⟨state, by simp [hstate]⟩

theorem dispatchChild_step (c : ChildCall) :
    CallStep D.hashing v (dispatchChild D maxDepth v c).1
      (.child c (dispatchChild D maxDepth v c).2) := by
  have hchild : ∀ v' : RunVars, v'.state = v.state → v'.resume = v.resume →
      CallStep D.hashing v v' (.child c (gatedChild D v c)) := by
    intro v' hstate hresume
    refine ⟨hstate, .inl ⟨gatedChild_not_cleared c, hresume⟩, ?_, ?_, ?_⟩
    · intro hruns _
      rcases gatedChild_goesAhead hruns with ⟨-, hauto⟩ | ⟨-, hneeds, hlevel, happroval⟩
      · exact .inl hauto
      · exact .inr ⟨hneeds, hlevel, happroval⟩
    · intro _ _ hrepeatable
      cases hrepeatable
    · intro args parent hawaits hparent
      rw [gatedChild_awaiting hawaits] at hparent
      cases hparent
  unfold dispatchChild
  split
  · exact .refused rfl
  · split
    · exact .refused rfl
    · split
      · exact .refused rfl
      · simp only
        split
        · exact hchild _ rfl rfl
        · exact hchild _ rfl rfl

/-- A body's next move: a call, or nothing that an approval depends on. -/
theorem bodyStep_cases (a : SubCall) :
    (∃ e, (bodyStep D maxDepth v a).2 = [e] ∧
        CallStep D.hashing v (bodyStep D maxDepth v a).1 e) ∨
      (bodyStep D maxDepth v a).2 = [] ∧ (bodyStep D maxDepth v a).1.state = v.state ∧
        (bodyStep D maxDepth v a).1.resume = v.resume := by
  unfold bodyStep
  split
  · exact .inr ⟨rfl, rfl, rfl⟩
  · cases a with
    | step c => exact .inl ⟨_, rfl, enforceSubopPolicy_step c⟩
    | child c => exact .inl ⟨_, rfl, dispatchChild_step c⟩
    | leave => exact .inr ⟨rfl, rfl, rfl⟩

/-! ## A whole re-entry -/

/-- The approved step was parked after the composite's main change. -/
def continuesAfterMain (parent : ResumeParent) : Bool :=
  parent.afterMainEffect && (parent.state matches some (.obj _))

/-- What holds of the calls of a re-entry, in their order. -/
structure ResumeGuarded (H : Hashing) (opId paramsHash : String) (main : Bool)
    (events : List SubEvent) : Prop where
  once : events.countP SubEvent.cleared ≤ 1
  approved : ∀ e ∈ events, e.cleared = true →
    e.descriptor.opId = opId ∧ paramsHashMatches H e.params paramsHash = true
  gated : ∀ e ∈ events, e.runs = true → e.cleared = false → e.Gated
  straight : main = true → Preceded (fun before e => e.runs = true → e.repeatable = true →
    e.cleared = false → ∃ e' ∈ before, e'.cleared = true) events
  resumable : ∀ e ∈ events, e.Resumable

/-- The guarantee of the calls so far, with what the variables say about them: the approval is
used up exactly when a call cleared. -/
structure Guarded (H : Hashing) (opId paramsHash : String) (main : Bool)
    (c : Config RunVars SubEvent) : Prop where
  calls : ResumeGuarded H opId paramsHash main c.events
  main : main = true → (c.state.state.map (·.afterMainEffect)) = some true
  marker : c.state.resume = some (opId, paramsHash) ∧ c.events.countP SubEvent.cleared = 0 ∨
    c.state.resume = none ∧ c.events.countP SubEvent.cleared = 1

section Snoc
variable {H : Hashing} {opId paramsHash : String} {main : Bool} {c : Config RunVars SubEvent}
  {v' : RunVars} {e : SubEvent}

section
variable (h : Guarded H opId paramsHash main c) (hstep : CallStep H c.state v' e)
include h hstep

theorem Guarded.marker_snoc :
    v'.resume = some (opId, paramsHash) ∧ (c.events ++ [e]).countP SubEvent.cleared = 0 ∨
      v'.resume = none ∧ (c.events ++ [e]).countP SubEvent.cleared = 1 := by
  rw [List.countP_append, List.countP_singleton]
  rcases hstep.marker with ⟨hno, hresume⟩ | ⟨hyes, hresume, approved, hwas, -⟩
  · rw [hresume]
    simpa [hno] using h.marker
  · rcases h.marker with ⟨-, hzero⟩ | ⟨hnone, -⟩
    · exact .inr ⟨hresume, by rw [hzero, if_pos hyes]⟩
    · rw [hwas] at hnone
      cases hnone

theorem Guarded.approved_snoc (hcleared : e.cleared = true) :
    e.descriptor.opId = opId ∧ paramsHashMatches H e.params paramsHash = true := by
  rcases hstep.marker with ⟨hno, -⟩ | ⟨-, -, approved, hwas, hop, hhash⟩
  · rw [hcleared] at hno
    cases hno
  · rcases h.marker with ⟨hsome, -⟩ | ⟨hnone, -⟩
    · obtain rfl := Option.some.inj (hwas.symm.trans hsome)
      exact ⟨hop, hhash⟩
    · rw [hwas] at hnone
      cases hnone

theorem Guarded.straight_snoc (hmain : main = true) (hruns : e.runs = true)
    (hrepeatable : e.repeatable = true) (hno : e.cleared = false) :
    ∃ e' ∈ c.events, e'.cleared = true := by
  have hreached := hstep.straight hruns hno hrepeatable
  unfold resumeHasNotReachedApprovedStep at hreached
  obtain ⟨bound, hbound, hafter⟩ := Option.map_eq_some_iff.mp (h.main hmain)
  rw [hbound] at hreached
  simp only [hafter, Bool.true_and] at hreached
  rcases h.marker with ⟨hsome, -⟩ | ⟨-, hone⟩
  · rw [hsome] at hreached
    cases hreached
  · have hpos : 0 < c.events.countP SubEvent.cleared := by omega
    exact List.countP_pos_iff.mp hpos

theorem Guarded.snoc : Guarded H opId paramsHash main ⟨v', c.events ++ [e]⟩ := by
  have hmarker := h.marker_snoc hstep
  refine ⟨⟨?_, ?_, ?_, ?_, ?_⟩, ?_, hmarker⟩
  · show (c.events ++ [e]).countP SubEvent.cleared ≤ 1
    rcases hmarker with ⟨-, hzero⟩ | ⟨-, hone⟩ <;> omega
  · exact List.forall_mem_append.mpr
      ⟨h.calls.approved, List.forall_mem_singleton.mpr (h.approved_snoc hstep)⟩
  · exact List.forall_mem_append.mpr
      ⟨h.calls.gated, List.forall_mem_singleton.mpr hstep.gated⟩
  · intro hmain
    exact (h.calls.straight hmain).snoc (h.straight_snoc hstep hmain)
  · exact List.forall_mem_append.mpr
      ⟨h.calls.resumable, List.forall_mem_singleton.mpr hstep.resumable⟩
  · intro hmain
    rw [hstep.state]
    exact h.main hmain

end

end Snoc

section Reentry
variable (D maxDepth) (subopOpId subopParamsHash : String) (parent : ResumeParent)
  (requester : Option ResumeRequester)

theorem guarded_begin :
    Guarded D.hashing subopOpId subopParamsHash (continuesAfterMain parent)
      (reentry D maxDepth subopOpId subopParamsHash parent requester).begin_ := by
  refine ⟨⟨Nat.zero_le 1, ?_, ?_, ?_, ?_⟩, ?_, .inl ⟨rfl, rfl⟩⟩
  · intro e he
    cases he
  · intro e he
    cases he
  · intro _
    exact Preceded.nil _
  · intro e he
    cases he
  · intro hmain
    simp only [continuesAfterMain, Bool.and_eq_true] at hmain
    obtain ⟨hafter, hobj⟩ := hmain
    simp only [Machine.begin_, reentry, compositeParentBinding]
    split at hobj
    · exact congrArg some hafter
    · cases hobj

theorem guarded_next (c : Config RunVars SubEvent) (a : SubCall)
    (h : Guarded D.hashing subopOpId subopParamsHash (continuesAfterMain parent) c) :
    Guarded D.hashing subopOpId subopParamsHash (continuesAfterMain parent)
      ((reentry D maxDepth subopOpId subopParamsHash parent requester).next c a) := by
  unfold Machine.next reentry
  simp only
  rcases @bodyStep_cases D maxDepth c.state a with
    ⟨e, hevents, hstep⟩ | ⟨hnone, hstate, hresume⟩
  · rw [hevents]
    exact h.snoc hstep
  · rw [hnone, List.append_nil]
    refine ⟨h.calls, ?_, ?_⟩
    · rw [hstate]
      exact h.main
    · rw [hresume]
      exact h.marker

/-- **A resume clears the approved step and no other.** In every re-entry of a composite,
whatever its bodies call: at most one call runs without a gate, and it has the op id and the
params hash of the approved step. Every other call that runs passed the gate now, or waits
there and is neither destructive nor marked for its own approval. Where the approved step
continues after the composite's main change, no other step runs before it unless it is marked
the same; and every step that waits again after the main change saved where to continue. -/
theorem resume_guarded (calls : List SubCall) :
    ResumeGuarded D.hashing subopOpId subopParamsHash (continuesAfterMain parent)
      ((reentry D maxDepth subopOpId subopParamsHash parent requester).run
        (reentry D maxDepth subopOpId subopParamsHash parent requester).begin_ calls).events :=
  (Machine.run_induct _ (guarded_next D maxDepth subopOpId subopParamsHash parent requester)
    (guarded_begin D maxDepth subopOpId subopParamsHash parent requester) calls).calls

end Reentry

/-- A step of a person's composite that waits because it came with a token. -/
def boardStep (opId : String) (params : Params) : StepCall where
  operator := caller "asker" .user .operator
  actorSub := none
  connectorId := "github-1"
  opId := opId
  safetyLevel := .caution
  requiresApproval := false
  target := none
  params := params
  resumeState := none
  afterMainEffect := false
  gate := quietContext
  park := ⟨none, some none, ⟨false, none, none, none⟩, ⟨"ok", ""⟩, none, none,
    Settings.default, 0, 0, 0, 0⟩

/-- The approval is for setting a field; the body adds the item first, which waits at the gate
as well and runs. -/
theorem covered_step_runs :
    ¬∀ (D : Deployment) (maxDepth : Nat) (opId paramsHash : String) (parent : ResumeParent)
      (requester : Option ResumeRequester) (calls : List SubCall),
      ∀ e ∈ ((reentry D maxDepth opId paramsHash parent requester).run
          (reentry D maxDepth opId paramsHash parent requester).begin_ calls).events,
        e.verdict = needsApproval → e.runs = true → e.cleared = true := by
  intro h
  have hadd := h Approval.smallDeployment 8 "board.field.set" "field"
    ⟨"board.intake", some [], none, false⟩ none
    [.step (boardStep "board.item.add" [("item", .null)]),
      .step (boardStep "board.field.set" [("field", .null)])]
    (.step (boardStep "board.item.add" [("item", .null)]) .covered) List.mem_cons_self
    (by decide) rfl
  cases hadd

end Meho.Composite
