import Mathlib.Data.List.Forall2
import Mathlib.Data.List.Perm.Basic
import Meho.Runbook.Engine
import Meho.Runbook.TemplateStore

/- One runbook run under concurrent calls (runbooks/run_service.py).

A call is a process. Each of its steps is one statement of a session: a load sees
what is committed, and the commit writes the columns the session has changed,
under the row's key and without looking at the row again. `next_step` has three
phases: it loads the run and its steps, it dispatches the verify call with no
session, and it loads both once more, judges and commits. The judgement is made
with the step and the state of the first phase. `abort_run` and `reassign_run`
load and commit.

`InTurn` is the condition under which a commit meets what its call had loaded: a
judged step is still in progress, and so is the run that is advanced or aborted.
In every run whose commits are in turn the steps keep their order, a verified step
stays verified, a completed run has all its steps verified, and a completed or
abandoned run stays what it is (`run_in_order`). Nothing in the code makes a commit
be in turn: `verified_step_fails` is a second `next_step` on the same step whose
verify comes out the other way.

Correspondence: `RunbookRunStepState` ↔ `StepRow`, `start_run` ↔ `startRows` and
`startDb`, `_load_next_step_inputs` ↔ the stages `loadRun` and `loadSteps`,
`_write_next_step_outcome` ↔ the stages `reloadRun`, `reloadSteps` and `write`,
`_apply_outcome` ↔ `applyOutcome`, `abort_run` ↔ `AbortStage`, `reassign_run` ↔
`ReassignStage`; what is not listed keeps its name. The pinned template is the same in
every load. -/
namespace Meho.Runbook
open Meho.Lib

/-! ## Rows -/

inductive RunState where
  | inProgress
  | completed
  | abandoned
  deriving DecidableEq, Repr

def RunState.isTerminal : RunState → Bool
  | .inProgress => false
  | .completed | .abandoned => true

structure RunbookRun where
  tenantId : Nat
  assignedTo : String
  target : String
  params : Dict
  state : RunState
  completedAt : Option Time
  abandonedAt : Option Time

/-- `RunbookRunStepState`. -/
structure StepRow where
  stepId : String
  state : StepState
  startedAt : Option Time
  verifiedAt : Option Time
  verifyResponse : Option VerifyResponse

/-- What the audit row of an abort says. -/
structure AbortAudit where
  operatorSub : String
  stepId : Option String
  reason : String

/-- The rows of one run, the steps in the order of the template. -/
structure RunDb where
  run : RunbookRun
  steps : List StepRow
  audit : List AbortAudit

inductive RunError where
  | runNotFound
  | notRunAssignee
  | runAlreadyTerminal (state : RunState)
  | previousStepFailed (stepId : String)
  | noCurrentStep
  | dispatchFailed
  | keyError (key : String)
  | engine (e : EngineError)

/-- The rows `start_run` inserts: the first step is in progress, the others are pending. -/
def startRows (now : Time) : List Step → List StepRow
  | [] => []
  | first :: rest => ⟨first.id, .inProgress, some now, none, none⟩ ::
    rest.map fun step => ⟨step.id, .pending, none, none, none⟩

def startDb (template : AcceptedTemplate) (tenantId : Nat) (operatorSub target : String)
    (params : Dict) (now : Time) : RunDb where
  run := ⟨tenantId, operatorSub, target, params, .inProgress, none, none⟩
  steps := startRows now template.body.steps
  audit := []

/-! ## Loads -/

/-- `_load_run_or_raise`. -/
def loadRunOrRaise (db : RunDb) (tenantId : Nat) : Except RunError RunbookRun :=
  if db.run.tenantId = tenantId then .ok db.run else .error .runNotFound

def refuseIfTerminal (run : RunbookRun) : Except RunError Unit :=
  if run.state.isTerminal then .error (.runAlreadyTerminal run.state) else .ok ()

/-- The checks of a run that `next_step` loads. -/
def requireRunAssignee (db : RunDb) (tenantId : Nat) (callerSub : String) :
    Except RunError RunbookRun := do
  let run ← loadRunOrRaise db tenantId
  if run.assignedTo ≠ callerSub then throw .notRunAssignee
  refuseIfTerminal run
  pure run

/-- The step rows in the order the database answers them in, which is up to it. -/
def loadStepStates (order : List String) (steps : List StepRow) : List StepRow :=
  if order.isPerm (steps.map (·.stepId)) then
    order.filterMap fun id => steps.find? (·.stepId = id)
  else steps

def rowOf (rows : List StepRow) (stepId : String) : Except RunError StepRow :=
  match rows.find? (·.stepId = stepId) with
  | some row => .ok row
  | none => .error (.keyError stepId)

/-- The first step in progress, else the first one that failed. -/
def currentStepIdOrNone (rows : List StepRow) : Option String :=
  ((rows.find? (·.state = .inProgress)).or (rows.find? (·.state = .failed))).map (·.stepId)

/-! ## Calls -/

/-- What the first phase hands to the others. -/
structure NextStepInputs where
  run : RunbookRun
  currentStep : Step
  currentStepId : String
  currentState : StepState

/-- Where a call for the next step stands. -/
inductive NextStage where
  | loadRun
  | loadSteps (run : RunbookRun)
  | dispatch (inputs : NextStepInputs)
  | reloadRun (inputs : NextStepInputs) (response : Option VerifyResponse)
  | reloadSteps (inputs : NextStepInputs) (response : Option VerifyResponse) (run : RunbookRun)
  | write (inputs : NextStepInputs) (response : Option VerifyResponse) (run : RunbookRun)
      (rows : List StepRow)

inductive AbortStage where
  | loadRun
  | loadSteps (run : RunbookRun)
  | write (run : RunbookRun) (stepId : Option String)

inductive ReassignStage where
  | loadRun
  | write (run : RunbookRun)

structure NextCall where
  tenantId : Nat
  operatorSub : String
  verifyResponse : Option VerifyResponse

structure AbortCall where
  tenantId : Nat
  operatorSub : String
  callerIsAdmin : Bool
  reason : String

structure ReassignCall where
  tenantId : Nat
  newAssignee : String

/-- A call on a run, at its stage. -/
inductive RunProc where
  | nextStep (call : NextCall) (stage : NextStage)
  | abort (call : AbortCall) (stage : AbortStage)
  | reassign (call : ReassignCall) (stage : ReassignStage)
  | answered (answer : Except RunError Unit)

/-- What a step of a call meets: the clock, the order of the step rows, and what the operation of
a verify call answered, if it answered. -/
structure RunInput where
  now : Time
  order : List String
  actual : Option Dict

section Calls
variable (py : Python) (template : AcceptedTemplate)

/-- The verify call: the operation and its parameters, filled in. -/
def buildVerifyCall (target : String) (params : Dict) (opId : String) (callParams : Dict) :
    Except EngineError (String × Dict) := do
  let opId ← keyed (resolveString py.str target params opId)
  let callParams ← keyed (resolveFields py.str target params callParams)
  pure (opId, callParams)

def resolveVerifyResponse (run : RunbookRun) (currentStep : Step)
    (requestVerify : Option VerifyResponse) (actual : Option Dict) :
    Except RunError (Option VerifyResponse) :=
  match currentStep.verify with
  | .confirm _ => .ok requestVerify
  | .operationCall opId callParams _ => do
    let _ ← (buildVerifyCall py run.target run.params opId callParams).mapError .engine
    match actual with
    | none => throw .dispatchFailed
    | some actual => pure (some (.operationCall false actual))

def updateRow (stepId : String) (f : StepRow → StepRow) (steps : List StepRow) : List StepRow :=
  steps.map fun row => if row.stepId = stepId then f row else row

/-- The commit of an outcome, over what is committed when it runs. -/
def applyOutcome (db : RunDb) (run : RunbookRun) (rows : List StepRow) (currentStepId : String)
    (outcome : AdvanceOutcome) (now : Time) : Except RunError RunDb := do
  let current ← rowOf rows currentStepId
  match outcome with
  -- a failed check ends the step, the run stays where it is
  | .failed persisted =>
    pure { db with steps := db.steps |> updateRow currentStepId fun row =>
      { row with
        state := written current.state .failed row.state
        verifyResponse := written current.verifyResponse (some persisted) row.verifyResponse } }
  | .completed completedAt persisted =>
    pure { db with
      steps := db.steps |> updateRow currentStepId fun row =>
        { row with
          state := written current.state .verified row.state
          verifiedAt := written current.verifiedAt (some now) row.verifiedAt
          verifyResponse := written current.verifyResponse (some persisted) row.verifyResponse }
      run := { db.run with
        state := written run.state .completed db.run.state
        completedAt := written run.completedAt (some completedAt) db.run.completedAt } }
  | .nextStep shown persisted =>
    let next ← rowOf rows shown.id
    -- the step is verified and the next one begins in the same commit
    let verified := db.steps |> updateRow currentStepId fun row =>
      { row with
        state := written current.state .verified row.state
        verifiedAt := written current.verifiedAt (some now) row.verifiedAt
        verifyResponse := written current.verifyResponse (some persisted) row.verifyResponse }
    pure { db with
      steps := verified |> updateRow shown.id fun row =>
        { row with
          state := written next.state .inProgress row.state
          startedAt := written next.startedAt (some now) row.startedAt } }

/-- What the engine says of the judged step, with the state of the first phase. -/
def judge (inputs : NextStepInputs) (response : Option VerifyResponse) (now : Time) :
    Except EngineError AdvanceOutcome :=
  advance py template.body inputs.currentStepId inputs.currentState inputs.run.target
    inputs.run.params response now

/-- The answer of the call that wrote `outcome`. -/
def answerOf (stepId : String) : AdvanceOutcome → Except RunError Unit
  | .failed _ => .error (.previousStepFailed stepId)
  | _ => .ok ()

/-- The first phase behind the load of the run. -/
def nextStepInputs (run : RunbookRun) (rows : List StepRow) : Except RunError NextStepInputs :=
  match currentStepIdOrNone rows with
  | none => .error .noCurrentStep
  | some stepId => do
    let row ← rowOf rows stepId
    if row.state = .failed then throw (.previousStepFailed stepId)
    let step ← (findStep template.body stepId).mapError .engine
    pure ⟨run, step, stepId, row.state⟩

/-- What a step of a call does: it moves on, or it commits and answers, or it answers. -/
inductive Effect where
  | moved (proc : RunProc)
  | committed (db : RunDb) (answer : Except RunError Unit)
  | answered (answer : Except RunError Unit)

/-- A load that raises ends the call. -/
def Effect.ofLoad {α : Type} (x : Except RunError α) (next : α → RunProc) : Effect :=
  match x with
  | .ok a => .moved (next a)
  | .error e => .answered (.error e)

def NextStage.step (db : RunDb) (call : NextCall) (input : RunInput) : NextStage → Effect
  | .loadRun => .ofLoad (requireRunAssignee db call.tenantId call.operatorSub) fun run =>
      .nextStep call (.loadSteps run)
  | .loadSteps run =>
    .ofLoad (nextStepInputs template run (loadStepStates input.order db.steps)) fun inputs =>
      .nextStep call (.dispatch inputs)
  | .dispatch inputs =>
    .ofLoad (resolveVerifyResponse py inputs.run inputs.currentStep call.verifyResponse
      input.actual) fun response => .nextStep call (.reloadRun inputs response)
  -- an abort or a reassign may have raced the verify call: the run is loaded again
  | .reloadRun inputs response =>
    .ofLoad (requireRunAssignee db call.tenantId call.operatorSub) fun run =>
      .nextStep call (.reloadSteps inputs response run)
  | .reloadSteps inputs response run =>
    let rows := loadStepStates input.order db.steps
    match rowOf rows inputs.currentStepId with
    | .error e => .answered (.error e)
    | .ok row =>
      if row.state = .failed then .answered (.error (.previousStepFailed inputs.currentStepId))
      else .moved (.nextStep call (.write inputs response run rows))
  | .write inputs response run rows =>
    match judge py template inputs response input.now with
    | .error e => .answered (.error (.engine e))
    | .ok outcome =>
      match applyOutcome db run rows inputs.currentStepId outcome input.now with
      | .error e => .answered (.error e)
      | .ok db' => .committed db' (answerOf inputs.currentStepId outcome)

/-- The checks of a run that `abort_run` loads. -/
def requireAbort (db : RunDb) (call : AbortCall) : Except RunError RunbookRun := do
  let run ← loadRunOrRaise db call.tenantId
  if run.assignedTo ≠ call.operatorSub && !call.callerIsAdmin then throw .notRunAssignee
  refuseIfTerminal run
  pure run

def AbortStage.step (db : RunDb) (call : AbortCall) (input : RunInput) : AbortStage → Effect
  | .loadRun => .ofLoad (requireAbort db call) fun run => .abort call (.loadSteps run)
  | .loadSteps run =>
    .moved (.abort call (.write run (currentStepIdOrNone (loadStepStates input.order db.steps))))
  | .write run stepId =>
    .committed
      { db with
        run := { db.run with
          state := written run.state .abandoned db.run.state
          abandonedAt := written run.abandonedAt (some input.now) db.run.abandonedAt }
        audit := db.audit ++ [⟨call.operatorSub, stepId, call.reason⟩] }
      (.ok ())

def requireReassign (db : RunDb) (call : ReassignCall) : Except RunError RunbookRun := do
  let run ← loadRunOrRaise db call.tenantId
  refuseIfTerminal run
  pure run

def ReassignStage.step (db : RunDb) (call : ReassignCall) : ReassignStage → Effect
  | .loadRun => .ofLoad (requireReassign db call) fun run => .reassign call (.write run)
  | .write run =>
    .committed { db with
      run := { db.run with
        assignedTo := written run.assignedTo call.newAssignee db.run.assignedTo } } (.ok ())

def RunProc.step (db : RunDb) (input : RunInput) : RunProc → Effect
  | .nextStep call stage => stage.step py template db call input
  | .abort call stage => stage.step db call input
  | .reassign call stage => stage.step db call
  | .answered answer => .answered answer

end Calls

/-! ## All calls on one run -/

/-- The rows of one run and the calls under way. -/
structure RunWorld where
  db : RunDb
  procs : List RunProc

/-- A new call, or the next statement of a call. -/
inductive RunAct where
  | nextStep (call : NextCall)
  | abort (call : AbortCall)
  | reassign (call : ReassignCall)
  | step (pid : Nat) (input : RunInput)

section World
variable (py : Python) (template : AcceptedTemplate)

/-- The world after the step of call `pid`. -/
def RunWorld.after (w : RunWorld) (pid : Nat) : Effect → RunWorld
  | .moved proc => { w with procs := w.procs.set pid proc }
  | .committed db answer => ⟨db, w.procs.set pid (.answered answer)⟩
  | .answered answer => { w with procs := w.procs.set pid (.answered answer) }

def runStep (w : RunWorld) : RunAct → RunWorld
  | .nextStep call => { w with procs := w.procs ++ [.nextStep call .loadRun] }
  | .abort call => { w with procs := w.procs ++ [.abort call .loadRun] }
  | .reassign call => { w with procs := w.procs ++ [.reassign call .loadRun] }
  | .step pid input =>
    match w.procs[pid]? with
    | none => w
    | some proc => w.after pid (proc.step py template w.db input)

/-- The calls on a run from its start on. -/
def runMachine (db : RunDb) : Machine RunWorld RunAct Empty where
  start := ⟨db, []⟩
  step w a := (runStep py template w a, [])

end World
end Meho.Runbook
