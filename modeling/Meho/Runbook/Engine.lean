import Meho.Auth.Operator
import Meho.Runbook.Template

/- The engine of a runbook run (runbooks/engine.py, runbooks/runs_schemas.py).

`currentStepBody` is what an operator is shown of a step. `advance` judges the
answer to the current step's gate: the run goes on to the next step, is completed
or has failed. Both are pure; the service writes what they say.

Correspondence: `_next_step` ↔ `nextStepAfter`, `_matches` ↔ `matchesJson`; what is not
listed keeps its name. `Python` holds the two functions of the language that decide on
values: `str` and the equality of scalars. -/
namespace Meho.Runbook

/-- `str(value)` and `a == b` of scalars. -/
structure Python where
  str : Json → String
  eq : Json → Json → Bool

inductive ConfirmAnswer where
  | yes
  | no
  | escalate
  deriving DecidableEq, Repr

inductive VerifyResponse where
  | confirm (answer : ConfirmAnswer)
  | operationCall (matched : Bool) (actual : Dict)
  deriving BEq

/-- One step as it is shown: the tokens of its texts are filled in. -/
structure StepBody where
  id : String
  title : String
  body : String
  action : StepAction
  verify : Verify

inductive StepState where
  | pending
  | inProgress
  | verified
  | failed
  deriving DecidableEq, Repr

inductive EngineError where
  | previousStepNotVerified (stepId : String) (state : StepState)
  | verifyResponseRequired (text : String)
  | verifyResponseMismatch (text : String)
  | keyError (key : String)

inductive AdvanceOutcome where
  | nextStep (body : StepBody) (persisted : VerifyResponse)
  | completed (completedAt : Time) (persisted : VerifyResponse)
  | failed (persisted : VerifyResponse)

variable (py : Python)

/-! ## The steps of a template -/

def findStep (body : RunbookTemplateBody) (stepId : String) : Except EngineError Step :=
  match body.steps.find? (·.id = stepId) with
  | some step => .ok step
  | none => .error (.keyError stepId)

/-- The step behind the first one of the id, if there is one. -/
def stepBehind (stepId : String) : List Step → Except EngineError (Option Step)
  | [] => .error (.keyError stepId)
  | step :: steps => if step.id = stepId then .ok steps.head? else stepBehind stepId steps

def nextStepAfter (body : RunbookTemplateBody) (stepId : String) :
    Except EngineError (Option Step) := stepBehind stepId body.steps

/-! ## What is shown -/

section Show
variable (target : String) (params : Dict)

/-- A missing parameter is a `KeyError`. -/
def keyed {α : Type} (x : Except String α) : Except EngineError α := x.mapError .keyError

def buildStepBodyVerify : Verify → Except EngineError Verify
  | .confirm prompt => do
    let prompt ← keyed (resolveString py.str target params prompt)
    pure (.confirm prompt)
  | .operationCall opId callParams expect => do
    let callParams ← keyed (resolveFields py.str target params callParams)
    let expect ← keyed (resolveFields py.str target params expect)
    pure (.operationCall opId callParams expect)

def buildStepBody (step : Step) : Except EngineError StepBody := do
  let body ← keyed (resolveString py.str target params step.body)
  let verify ← buildStepBodyVerify py target params step.verify
  match step.action with
  | .operationCall opId callParams =>
    let callParams ← keyed (resolveFields py.str target params callParams)
    pure ⟨step.id, step.title, body, .operationCall opId callParams, verify⟩
  | .manual => pure ⟨step.id, step.title, body, .manual, verify⟩

def currentStepBody (body : RunbookTemplateBody) (stepId : String) : Except EngineError StepBody :=
  do
    let step ← findStep body stepId
    buildStepBody py target params step

end Show

/-! ## The gate -/

mutual
/-- Every key of the expected mapping is there with a value that matches; lists match item by
item. -/
def matchesJson (actual : Json) : Json → Bool
  | .obj expect =>
    match actual with
    | .obj fields => matchesFields fields expect
    | _ => false
  | .arr expect =>
    match actual with
    | .arr items => items.length = expect.length && matchesItems items expect
    | _ => false
  | expect => py.eq actual expect

def matchesItems (actual : List Json) : List Json → Bool
  | [] => true
  | e :: expect =>
    match actual with
    | [] => true
    | a :: rest => matchesJson a e && matchesItems rest expect

def matchesFields (actual : Dict) : List (String × Json) → Bool
  | [] => true
  | (key, e) :: expect =>
    match dictGet actual key with
    | none => false
    | some a => matchesJson a e && matchesFields actual expect
end

/-- The name of a response's class, for the error texts. -/
def VerifyResponse.className : VerifyResponse → String
  | .confirm _ => "ConfirmVerifyResponse"
  | .operationCall _ _ => "OperationCallVerifyResponse"

def evaluateConfirm : Option VerifyResponse → Except EngineError (Bool × VerifyResponse)
  | none => .error (.verifyResponseRequired "confirm step requires a verify_response")
  | some (.confirm answer) => .ok (answer = .yes, .confirm answer)
  | some response => .error (.verifyResponseMismatch
      ("confirm step received a non-confirm verify_response: " ++ response.className))

def evaluateOperationCall (target : String) (params expect : Dict) :
    Option VerifyResponse → Except EngineError (Bool × VerifyResponse)
  | none => .error (.verifyResponseRequired "operation_call step requires a verify_response")
  | some (.operationCall _ actual) => do
    let expect ← keyed (resolveFields py.str target params expect)
    let matched := matchesJson py (.obj actual) (.obj expect)
    pure (matched, .operationCall matched actual)
  | some response => .error (.verifyResponseMismatch
      ("operation_call step received a non-operation_call verify_response: " ++
        response.className))

/-- The verdict on the current step, and the response to keep. -/
def evaluateVerify (target : String) (params : Dict) (response : Option VerifyResponse) :
    Verify → Except EngineError (Bool × VerifyResponse)
  | .confirm _ => evaluateConfirm response
  | .operationCall _ _ expect => evaluateOperationCall py target params expect response

def advance (body : RunbookTemplateBody) (currentStepId : String) (previousStepState : StepState)
    (target : String) (params : Dict) (response : Option VerifyResponse) (completedAt : Time) :
    Except EngineError AdvanceOutcome :=
  if previousStepState ≠ .inProgress then
    .error (.previousStepNotVerified currentStepId previousStepState)
  else do
    let step ← findStep body currentStepId
    let (passed, persisted) ← evaluateVerify py target params response step.verify
    if passed then
      match ← nextStepAfter body currentStepId with
      | none => pure (.completed completedAt persisted)
      | some next =>
        let shown ← buildStepBody py target params next
        pure (.nextStep shown persisted)
    else pure (.failed persisted)

/-! ## What an outcome says -/

/-- From an answer of a chain, the answers of its parts. -/
theorem bind_ok {ε α β : Type} {x : Except ε α} {f : α → Except ε β} {b : β}
    (h : (x >>= f) = .ok b) : ∃ a, x = .ok a ∧ f a = .ok b := by
  cases x with
  | error e => cases h
  | ok a => exact ⟨a, rfl, h⟩

theorem keyed_ok {α : Type} {x : Except String α} {a : α} (h : keyed x = .ok a) : x = .ok a := by
  cases x with
  | error e => cases h
  | ok b => cases h; rfl

/-- A step that is shown keeps its id. -/
theorem buildStepBody_id {target : String} {params : Dict} {step : Step} {shown : StepBody}
    (h : buildStepBody py target params step = .ok shown) : shown.id = step.id := by
  unfold buildStepBody at h
  obtain ⟨body, -, h⟩ := bind_ok h
  obtain ⟨verify, -, h⟩ := bind_ok h
  split at h
  · obtain ⟨callParams, -, h⟩ := bind_ok h
    cases h
    rfl
  · cases h
    rfl

/-- The step behind an id: the id stands in the list, and this one right after it. -/
theorem stepBehind_ok {stepId : String} {steps : List Step} {next : Option Step}
    (h : stepBehind stepId steps = .ok next) :
    ∃ before step behind, steps = before ++ step :: behind ∧ step.id = stepId ∧
      behind.head? = next := by
  induction steps with
  | nil => cases h
  | cons step steps ih =>
    unfold stepBehind at h
    split at h
    · rename_i hid
      cases h
      exact ⟨[], step, steps, rfl, hid, rfl⟩
    · obtain ⟨before, found, behind, rfl, hid, hnext⟩ := ih h
      exact ⟨step :: before, found, behind, rfl, hid, hnext⟩

/-- **What an advance answers.** It fails the current step; or there is a step behind the current
one and the run goes on to it; or the current step is the last one. -/
inductive Advanced (body : RunbookTemplateBody) (stepId : String) (completedAt : Time) :
    AdvanceOutcome → Prop
  | failed (persisted : VerifyResponse) : Advanced body stepId completedAt (.failed persisted)
  | nextStep (before : List Step) (step next : Step) (behind : List Step) (shown : StepBody)
      (persisted : VerifyResponse) (hsteps : body.steps = before ++ step :: next :: behind)
      (hid : step.id = stepId) (hshown : shown.id = next.id) :
      Advanced body stepId completedAt (.nextStep shown persisted)
  | completed (before : List Step) (step : Step) (persisted : VerifyResponse)
      (hsteps : body.steps = before ++ [step]) (hid : step.id = stepId) :
      Advanced body stepId completedAt (.completed completedAt persisted)

theorem advance_ok {body : RunbookTemplateBody} {stepId : String} {state : StepState}
    {target : String} {params : Dict} {response : Option VerifyResponse} {completedAt : Time}
    {outcome : AdvanceOutcome}
    (h : advance py body stepId state target params response completedAt = .ok outcome) :
    state = .inProgress ∧ Advanced body stepId completedAt outcome := by
  unfold advance at h
  split at h
  · cases h
  · rename_i hstate
    refine ⟨Decidable.not_not.mp hstate, ?_⟩
    obtain ⟨step, -, h⟩ := bind_ok h
    obtain ⟨⟨passed, persisted⟩, -, h⟩ := bind_ok h
    cases passed with
    | false =>
      cases h
      exact .failed persisted
    | true =>
      obtain ⟨next, hnext, h⟩ := bind_ok h
      obtain ⟨before, current, behind, hsteps, hid, hhead⟩ := stepBehind_ok hnext
      cases behind with
      | nil =>
        cases hhead
        cases h
        exact .completed before current persisted hsteps hid
      | cons next' behind =>
        cases hhead
        obtain ⟨shown, hshown, h⟩ := bind_ok h
        cases h
        exact .nextStep before current next' behind shown persisted hsteps hid
          (buildStepBody_id py hshown)

end Meho.Runbook
