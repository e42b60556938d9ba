import Meho.Runbook.PublishGate
import Meho.Runbook.Runs
import Meho.JsonDicts

/- What passes a step's verify call (runbooks/run_service.py, runbooks/engine.py).

`actualOf` is what `_resolve_verify_response` takes from the answer of the call: its
`result`, put under the key `result` where it is no mapping. The status of the answer is not
read. `Fits` is the meaning of `_matches` (`matchesJson_iff`). A call that was refused, that
failed or that waits for approval answers with the result `None`, a composite that failed
with its mapping: what is expected has to tell these from a success (`Tells`), and exactly
then no such call passes the gate (`gate_holds_iff`).

Of `OperationResult` its duration, handle, audit id and delivery are left out. -/
namespace Meho.Runbook

structure OperationResult where
  status : String
  opId : String
  result : Json
  error : Option String
  extras : Dict

/-- `call_operation` returns the dumped model. -/
def OperationResult.modelDump (answer : OperationResult) : Dict :=
  [("status", .str answer.status), ("op_id", .str answer.opId), ("result", answer.result),
    ("error", (answer.error.map Json.str).getD .null), ("extras", .obj answer.extras)]

/-- `call_result.get("result", {})`, wrapped unless it is a mapping. -/
def actualOf (callResult : Dict) : Dict :=
  match (dictGet callResult "result").getD (.obj []) with
  | .obj fields => fields
  | other => [("result", other)]

/-- The step the outcome is about gets the state `verified`. -/
def AdvanceOutcome.marksVerified : AdvanceOutcome → Bool
  | .nextStep _ _ => true
  | .completed _ _ => true
  | .failed _ => false

/-! ## The meaning of a match -/

def Scalar : Json → Prop
  | .obj _ => False
  | .arr _ => False
  | _ => True

section Fits
variable (py : Python)

/-- Every key that is expected is there with a value that fits; lists fit item by item; what
else is expected is equal. -/
inductive Fits : Json → Json → Prop
  | fields {actual expect : Dict} (there : ∀ e ∈ expect, ∃ a, dictGet actual e.1 = some a)
      (fit : ∀ e ∈ expect, ∀ a, dictGet actual e.1 = some a → Fits a e.2) :
      Fits (.obj actual) (.obj expect)
  | items {actual expect : List Json} (length : actual.length = expect.length)
      (fit : ∀ (i : Nat) a e, actual[i]? = some a → expect[i]? = some e → Fits a e) :
      Fits (.arr actual) (.arr expect)
  | scalar {actual expect : Json} (hscalar : Scalar expect) (heq : py.eq actual expect = true) :
      Fits actual expect

variable {py}

theorem fits_scalar_iff {actual expect : Json} (h : Scalar expect) :
    Fits py actual expect ↔ py.eq actual expect = true := by
  constructor
  · intro hfits
    cases hfits with
    | fields | items => exact h.elim
    | scalar hscalar heq => exact heq
  · exact .scalar h

theorem not_fits_obj {actual : Json} (h : ∀ fields, actual ≠ .obj fields) (expect : Dict) :
    ¬ Fits py actual (.obj expect) := by
  intro hfits
  cases hfits with
  | fields => exact h _ rfl
  | scalar hscalar heq => exact hscalar

theorem not_fits_arr {actual : Json} (h : ∀ items, actual ≠ .arr items) (expect : List Json) :
    ¬ Fits py actual (.arr expect) := by
  intro hfits
  cases hfits with
  | items => exact h _ rfl
  | scalar hscalar heq => exact hscalar

theorem fits_fields_iff {actual expect : Dict} :
    Fits py (.obj actual) (.obj expect) ↔
      ∀ e ∈ expect, ∃ a, dictGet actual e.1 = some a ∧ Fits py a e.2 := by
  constructor
  · intro hfits e he
    cases hfits with
    | fields there fit =>
      obtain ⟨a, ha⟩ := there e he
      exact ⟨a, ha, fit e he a ha⟩
    | scalar hscalar heq => exact hscalar.elim
  · intro h
    refine .fields (fun e he => ?_) (fun e he a ha => ?_)
    · obtain ⟨a, ha, -⟩ := h e he
      exact ⟨a, ha⟩
    · obtain ⟨a', ha', hfit⟩ := h e he
      rw [ha] at ha'
      exact Option.some.inj ha' ▸ hfit

mutual
theorem matchesJson_iff : ∀ expect actual : Json,
    matchesJson py actual expect = true ↔ Fits py actual expect
  | .obj expect, .obj fields => by
    rw [fits_fields_iff, matchesJson]
    exact matchesFields_iff expect fields
  | .arr expect, .arr items => by
    rw [matchesJson, Bool.and_eq_true, decide_eq_true_eq]
    constructor
    · intro ⟨hlength, hitems⟩
      exact .items hlength ((matchesItems_iff expect items hlength).mp hitems)
    · intro hfits
      cases hfits with
      | items length fit => exact ⟨length, (matchesItems_iff expect items length).mpr fit⟩
      | scalar hscalar heq => exact hscalar.elim
  | .obj _, .null | .obj _, .bool _ | .obj _, .int _ | .obj _, .float _ | .obj _, .str _
  | .obj _, .arr _ => by simp [matchesJson, not_fits_obj]
  | .arr _, .null | .arr _, .bool _ | .arr _, .int _ | .arr _, .float _ | .arr _, .str _
  | .arr _, .obj _ => by simp [matchesJson, not_fits_arr]
  | .null, actual => (@fits_scalar_iff py actual .null trivial).symm
  | .bool x, actual => (@fits_scalar_iff py actual (.bool x) trivial).symm
  | .int x, actual => (@fits_scalar_iff py actual (.int x) trivial).symm
  | .float x, actual => (@fits_scalar_iff py actual (.float x) trivial).symm
  | .str x, actual => (@fits_scalar_iff py actual (.str x) trivial).symm

theorem matchesItems_iff : ∀ expect actual : List Json, actual.length = expect.length →
    (matchesItems py actual expect = true ↔
      ∀ (i : Nat) a e, actual[i]? = some a → expect[i]? = some e → Fits py a e)
  | [], _, _ => by simp [matchesItems]
  | _ :: _, [], h => by cases h
  | e :: expect, a :: rest, h => by
    have hrest := matchesItems_iff expect rest (Nat.succ.inj h)
    rw [matchesItems, Bool.and_eq_true, matchesJson_iff e a, hrest]
    constructor
    · intro ⟨hhead, htail⟩ i a' e' ha he
      cases i with
      | zero =>
        cases ha
        cases he
        exact hhead
      | succ i => exact htail i a' e' ha he
    · intro hall
      exact ⟨hall 0 a e rfl rfl, fun i a' e' ha he => hall (i + 1) a' e' ha he⟩

theorem matchesFields_iff : ∀ (expect : List (String × Json)) (actual : Dict),
    matchesFields py actual expect = true ↔
      ∀ e ∈ expect, ∃ a, dictGet actual e.1 = some a ∧ Fits py a e.2
  | [], _ => by simp [matchesFields]
  | (key, e) :: expect, actual => by
    rw [matchesFields, List.forall_mem_cons]
    cases hget : dictGet actual key with
    | none => simp
    | some a =>
      rw [Bool.and_eq_true, matchesJson_iff e a, matchesFields_iff expect actual]
      simp
end

/-- Only `None` fits an answer `None`. -/
theorem fits_null_iff (hnone : ∀ e, py.eq .null e = true ↔ e = .null) {e : Json} :
    Fits py .null e ↔ e = .null := by
  cases e with
  | obj expect => simp [not_fits_obj]
  | arr expect => simp [not_fits_arr]
  | null => exact (@fits_scalar_iff py .null .null trivial).trans (hnone _)
  | bool b => exact (@fits_scalar_iff py .null (.bool b) trivial).trans (hnone _)
  | int i => exact (@fits_scalar_iff py .null (.int i) trivial).trans (hnone _)
  | float text => exact (@fits_scalar_iff py .null (.float text) trivial).trans (hnone _)
  | str text => exact (@fits_scalar_iff py .null (.str text) trivial).trans (hnone _)

/-! ## What an expectation tells -/

variable (py) in
/-- An expectation that the answer does not meet: a key that is missing, or a value that does not
fit. An answer that is no mapping has the key `result` alone; nothing but `None` fits
`None`. -/
def Tells (expect : Dict) : Json → Prop
  | .null => ∃ e ∈ expect, e.1 ≠ "result" ∨ e.2 ≠ .null
  | .obj answer => ∃ e ∈ expect, ∀ a, dictGet answer e.1 = some a → ¬ Fits py a e.2
  | other => ∃ e ∈ expect, e.1 ≠ "result" ∨ ¬ Fits py other e.2

theorem actualOf_modelDump (answer : OperationResult) :
    actualOf answer.modelDump = match answer.result with
      | .obj fields => fields
      | other => [("result", other)] := rfl

/-- What is expected of a wrapped answer. -/
theorem fits_wrapped_iff {answer : Json} {expect : Dict} :
    Fits py (.obj [("result", answer)]) (.obj expect) ↔
      ¬ ∃ e ∈ expect, e.1 ≠ "result" ∨ ¬ Fits py answer e.2 := by
  rw [fits_fields_iff]
  push Not
  refine forall₂_congr fun e he => ?_
  by_cases hkey : e.1 = "result"
  · simp [dictGet, hkey]
  · have hne : "result" ≠ e.1 := Ne.symm hkey
    simp [dictGet, hkey, hne]

theorem fits_actualOf_iff (hnone : ∀ e, py.eq .null e = true ↔ e = .null)
    (answer : OperationResult) (expect : Dict) :
    Fits py (.obj (actualOf answer.modelDump)) (.obj expect) ↔ ¬ Tells py expect answer.result := by
  rw [actualOf_modelDump]
  cases answer.result with
  | obj fields =>
    rw [fits_fields_iff, Tells]
    push Not
    rfl
  | null =>
    have hnull : ∀ e : String × Json, ¬ Fits py .null e.2 ↔ e.2 ≠ .null := fun e =>
      not_congr (fits_null_iff hnone)
    rw [fits_wrapped_iff, Tells]
    simp only [hnull]
  | bool b | int i | float text | str text | arr items => exact fits_wrapped_iff

end Fits

/-! ## The gate -/

section Gate
variable {py : Python} {template : AcceptedTemplate} {inputs : NextStepInputs} {opId : String}
  {callParams expect expected : Dict} {answer : OperationResult}

/-- The judged response is the call's answer, whatever the caller sent. -/
theorem response_of_call (hverify : inputs.currentStep.verify = .operationCall opId callParams expect)
    {sent response : Option VerifyResponse} {actual : Dict}
    (h : resolveVerifyResponse py inputs.run inputs.currentStep sent (some actual) = .ok response) :
    response = some (.operationCall false actual) := by
  unfold resolveVerifyResponse at h
  rw [hverify] at h
  obtain ⟨built, -, h⟩ := bind_ok h
  cases h
  rfl

/-- A judged step gets the state `verified` exactly when the call's answer fits. -/
theorem judge_marks_iff (hstep : findStep template.body inputs.currentStepId = .ok inputs.currentStep)
    (hverify : inputs.currentStep.verify = .operationCall opId callParams expect)
    (hexpected : resolveFields py.str inputs.run.target inputs.run.params expect = .ok expected)
    {actual : Dict} {now : Time} {outcome : AdvanceOutcome}
    (h : judge py template inputs (some (.operationCall false actual)) now = .ok outcome) :
    outcome.marksVerified = true ↔ Fits py (.obj actual) (.obj expected) := by
  unfold judge advance at h
  split at h
  · cases h
  · rw [hstep] at h
    obtain ⟨step, hfound, h⟩ := bind_ok h
    cases hfound
    obtain ⟨⟨passed, persisted⟩, hverdict, h⟩ := bind_ok h
    have hpassed : passed = matchesJson py (.obj actual) (.obj expected) := by
      rw [hverify, evaluateVerify, evaluateOperationCall, hexpected] at hverdict
      cases hverdict
      rfl
    rw [← matchesJson_iff, ← hpassed]
    cases passed with
    | false =>
      cases h
      exact Iff.rfl
    | true =>
      obtain ⟨next, -, h⟩ := bind_ok h
      cases next with
      | none =>
        cases h
        exact Iff.rfl
      | some next =>
        obtain ⟨shown, -, h⟩ := bind_ok h
        cases h
        exact Iff.rfl

/-- **A step is marked verified only by a call that went well and whose answer fits, exactly where
the call went well or what is expected tells its answer from a success.** -/
theorem gate_holds_iff (hnone : ∀ e, py.eq .null e = true ↔ e = .null)
    (hstep : findStep template.body inputs.currentStepId = .ok inputs.currentStep)
    (hverify : inputs.currentStep.verify = .operationCall opId callParams expect)
    (hexpected : resolveFields py.str inputs.run.target inputs.run.params expect = .ok expected)
    {sent response : Option VerifyResponse} {now : Time} {outcome : AdvanceOutcome}
    (hresponse : resolveVerifyResponse py inputs.run inputs.currentStep sent
      (some (actualOf answer.modelDump)) = .ok response)
    (hjudge : judge py template inputs response now = .ok outcome) :
    (outcome.marksVerified = true →
        answer.status = "ok" ∧ Fits py (.obj (actualOf answer.modelDump)) (.obj expected)) ↔
      answer.status = "ok" ∨ Tells py expected answer.result := by
  rw [response_of_call hverify hresponse] at hjudge
  rw [judge_marks_iff hstep hverify hexpected hjudge, fits_actualOf_iff hnone]
  constructor
  · intro h
    by_cases htells : Tells py expected answer.result
    · exact .inr htells
    · exact .inl (h htells).1
  · intro h htells
    exact ⟨h.resolve_right htells, htells⟩

end Gate

/-! ## A refused call -/

/-- Equality of `None` and of texts. -/
def gatePython : Python where
  str := textPython.str
  eq
    | .null, .null => true
    | .str a, .str b => a = b
    | _, _ => false

/-- A template of one step whose verify call expects `expect`. -/
def probeTemplate (expect : Dict)
    (h : (⟨"t", "d", none, [⟨"probe", "Probe", "look at the host", .manual,
      .operationCall "host.probe" [] expect⟩]⟩ : RunbookTemplateBody).validate = .ok ()) :
    AcceptedTemplate := ⟨_, h⟩

def probeInputs (template : AcceptedTemplate) (h : template.body.steps ≠ []) : NextStepInputs :=
  ⟨⟨1, "op", "db-1", [], .inProgress, none, none⟩, template.body.steps.head h, "probe", .inProgress⟩

def tellingTemplate : AcceptedTemplate := probeTemplate [("state", .str "up")] (by decide +kernel)

def emptyTemplate : AcceptedTemplate := probeTemplate [] (by decide +kernel)

def refusedAnswer : OperationResult :=
  ⟨"denied", "host.probe", .null, some "denied: policy", [("error_code", .str "denied")]⟩

theorem gatePython_none (e : Json) : gatePython.eq .null e = true ↔ e = .null := by
  cases e <;> simp [gatePython]

theorem gate_holds_iff_sample :
    ((AdvanceOutcome.failed (.operationCall false [("result", .null)])).marksVerified = true →
        refusedAnswer.status = "ok" ∧
          Fits gatePython (.obj (actualOf refusedAnswer.modelDump)) (.obj [("state", .str "up")])) ↔
      refusedAnswer.status = "ok" ∨ Tells gatePython [("state", .str "up")] refusedAnswer.result :=
  @gate_holds_iff gatePython tellingTemplate (probeInputs tellingTemplate (List.cons_ne_nil _ _))
    "host.probe" [] [("state", .str "up")] [("state", .str "up")] refusedAnswer gatePython_none rfl
    rfl rfl none _ 7 _ rfl rfl

/-- A refused call passes the gate of a step that expects nothing of its answer. -/
theorem refused_call_verifies :
    let inputs := probeInputs emptyTemplate (List.cons_ne_nil _ _)
    resolveVerifyResponse gatePython inputs.run inputs.currentStep none
        (some (actualOf refusedAnswer.modelDump)) =
      .ok (some (.operationCall false [("result", .null)])) ∧
    judge gatePython emptyTemplate inputs (some (.operationCall false [("result", .null)])) 7 =
      .ok (.completed 7 (.operationCall true [("result", .null)])) ∧
    (AdvanceOutcome.completed 7 (.operationCall true [("result", .null)])).marksVerified = true ∧
    refusedAnswer.status = "denied" :=
  ⟨rfl, rfl, rfl, rfl⟩

end Meho.Runbook
