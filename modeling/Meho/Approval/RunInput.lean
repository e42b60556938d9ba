import Meho.Approval.Origin

/- What is left of a request's input when it ends or its run is claimed.

The input of a run is stored in three places: the row's own params, the params
of the parent composite inside the row's resume context, and for a credential
write an encrypted custody row. `end_run_input` and `claim_resume` clean the
first and the third. The resume context keeps the parent's params as they were
parked; only the park of a credential write leaves them out.

`run_input_dropped`: in every run, a row that ended, or whose run was claimed,
holds no secret-named value exactly when its own park stored none in the resume
context, and a request that ended without a run has no custody row.
`parent_secret_survives_reject`: a run where the context held one, and a reject
leaves it there. -/
namespace Meho.Approval
open Meho.Lib

variable (D : Deployment)

/-- The stored params hold no value under a secret-shaped name. The marker, a boolean and a null
may stand there. -/
def paramsSecretFree (params : Option Params) : Bool :=
  match params with
  | none => true
  | some params => Redaction.secretFree true [] (.obj params)

/-- The params of the parent call in a resume context. -/
def parentParams (parent : Option ResumeParent) : Option Params := parent.bind (·.params)

/-- The request ended without a run. -/
def ApprovalRequest.endedUnrun (r : ApprovalRequest) : Bool :=
  match r.status with
  | .rejected => true
  | .expired => true
  | .withdrawn => true
  | _ => false

/-- The park stores no secret-named value in the resume context: it is that of a credential
write, or the parent's params hold none. -/
def parksCleanParent (args : CreateArgs) : Bool :=
  D.classifyOp args.opId = "credential_write" || paramsSecretFree (parentParams args.resumeParent)

/-- The run input of an ended or claimed request is gone: no secret-named value in its own
params or its parent's, and no custody row when it ended without a run. -/
def RunInputDropped (s : Store) (id : Nat) (r : ApprovalRequest) : Prop :=
  (r.endedUnrun = true ∨ r.resumedAt.isSome = true →
    paramsSecretFree r.params = true ∧ paramsSecretFree (parentParams r.resumeParent) = true) ∧
  (r.endedUnrun = true → (s.file id).custody = [])

/-! ## What hiding leaves -/

theorem hideStoredParams_secretFree (params : Option Params) :
    paramsSecretFree (hideStoredParams params) = true := by
  cases params with
  | none => rfl
  | some params =>
    unfold hideStoredParams paramsWithSecretFieldsHidden
    simp only
    split
    · -- something was hidden: what the walk leaves is free of secrets
      rename_i hidden hfound
      split at hfound
      · cases hfound
        simp only [paramsSecretFree, Redaction.secretFree,
          Redaction.isSecretNameValuePair_scrubFields]
        exact Redaction.scrubFields_secretFree _ params
      · cases hfound
    · -- nothing was hidden: there was nothing to hide
      rename_i hnone
      split at hnone
      · cases hnone
      · rename_i hclean
        simp only [paramsSecretFree, Redaction.secretFree]
        apply Redaction.secretFreeFields_of_not_found
        simpa using hclean

/-! ## The invariant of a file -/

/-- The own params are clean once the request ended or is claimed, and a request that ended
without a run has no custody row. -/
def InputDropped (f : File) : Prop :=
  ∀ r, f.row = some r →
    (r.endedUnrun = true ∨ r.resumedAt.isSome = true → paramsSecretFree r.params = true) ∧
      (r.endedUnrun = true → f.custody = [])

theorem endedUnrun_approved {r : ApprovalRequest} (h : r.status = .approved) :
    r.endedUnrun = false := by
  unfold ApprovalRequest.endedUnrun
  rw [h]

/-- Every custody row of a request is of the request's tenant, so a closing that drops the run
input leaves none. -/
theorem dropped_custody {id : Nat} {r : ApprovalRequest} {closings : List AuditRow}
    {custody : List CustodyRow} (hok : FileOk id ⟨some r, closings, custody⟩) :
    custody.filter (·.tenantId ≠ r.tenantId) = [] := by
  rw [List.filter_eq_nil_iff]
  intro e he
  simpa using hok.custody r rfl e he

theorem QueueStep.inputDropped {id : Nat} {f g : File} (h : QueueStep id f g)
    (hok : FileOk id f) (hf : InputDropped f) : InputDropped g := by
  cases h with
  | keep _ hs =>
    intro r hr
    obtain ⟨hparams, hcustody⟩ := hf r hr
    refine ⟨hparams, fun hend => ?_⟩
    rw [hcustody hend] at hs
    exact List.sublist_nil.mp hs
  | @create r custody hfresh _ =>
    intro r' hr
    cases hr
    have hopen : r.endedUnrun = false := by
      unfold ApprovalRequest.endedUnrun
      rw [hfresh.status]
    simp [hopen, hfresh.resumedAt]
  | @close r closings custody c row hp hrow =>
    intro r' hr
    cases hr
    have hfresh := (hok.row r rfl).pending hp
    cases c with
    | approve operator now =>
      have hopen := endedUnrun_approved (r := Closing.row r (.approve operator now)) rfl
      have hnone : (Closing.row r (.approve operator now)).resumedAt = none := hfresh.resumedAt
      simp [hopen, hnone]
    | reject operator now =>
      exact ⟨fun _ => hideStoredParams_secretFree r.params, fun _ => dropped_custody hok⟩
    | withdraw reason now =>
      exact ⟨fun _ => hideStoredParams_secretFree r.params, fun _ => dropped_custody hok⟩
    | expire cutoff ttl =>
      exact ⟨fun _ => hideStoredParams_secretFree r.params, fun _ => dropped_custody hok⟩

theorem FileStep.inputDropped {id : Nat} {f g : File} (h : FileStep id f g)
    (hok : FileOk id f) (hf : InputDropped f) : InputDropped g := by
  cases h with
  | queue hq => exact hq.inputDropped hok hf
  | @claim r closings custody custody' now hs hn _ =>
    intro r' hr
    cases hr
    have hopen := endedUnrun_approved (r := r.claimedAt now) hs
    refine ⟨fun _ => hideStoredParams_secretFree r.params, fun hend => ?_⟩
    rw [hopen] at hend
    cases hend
  | @record r closings custody result _ _ _ | @reclaim r closings custody _ _ =>
    intro r' hr
    cases hr
    exact hf r rfl

/-! ## Every run -/

/-- The parent of the row is as clean as the park the request was seen with. -/
def ParentAsParked (es : List Event) (id : Nat) (r : ApprovalRequest) : Prop :=
  ∃ args settings, parkedCall id es = some (args, settings) ∧
    paramsSecretFree (parentParams r.resumeParent) = parksCleanParent D args

/-- The invariant: every file is cleaned, and every parent is as it was parked. -/
structure InputOk (c : Config World Event) : Prop where
  record : OnRecord D c
  dropped : ∀ id, InputDropped (c.state.store.file id)
  parents : ∀ (id : Nat) (r : ApprovalRequest), c.state.store.requests[id]? = some r →
    ParentAsParked D c.events id r

theorem insertedRow_parent (s : Store) (args : CreateArgs) :
    paramsSecretFree (parentParams (insertedRow D s args).resumeParent) =
      parksCleanParent D args := by
  by_cases hcred : D.classifyOp args.opId = "credential_write"
  · -- only the op id of the parent is stored
    have hrow : (insertedRow D s args).resumeParent =
        args.resumeParent.map fun p => ⟨p.opId, none, none, false⟩ := by
      simp [insertedRow, newRequest, hcred]
    rw [hrow, parksCleanParent, decide_eq_true hcred, Bool.true_or]
    cases args.resumeParent <;> rfl
  · have hrow : (insertedRow D s args).resumeParent = args.resumeParent := by
      simp [insertedRow, newRequest, hcred]
    rw [hrow, parksCleanParent, decide_eq_false hcred, Bool.false_or]

theorem inputOk_next (c : Config World Event) (a : Act) (h : InputOk D c) :
    InputOk D ((queue D).next c a) := by
  have hfile := next_file D h.record.exclusive a
  have hok := h.record.exclusive.world.files
  refine ⟨onRecord_next D c a h.record,
    fun id => (hfile id).inputDropped (hok id) (h.dropped id), ?_⟩
  intro id r hr
  cases hold : c.state.store.requests[id]? with
  | some r₀ =>
    obtain ⟨r', hr', hlater⟩ := (hfile id).later hold
    rw [file_row, hr] at hr'
    cases hr'
    have hparent : r.resumeParent = r₀.resumeParent :=
      congrArg ParkedCall.resumeParent hlater.parked
    obtain ⟨args, settings, hparked, hclean⟩ := h.parents id r₀ hold
    exact ⟨args, settings, parkedCall_append hparked _, hparent ▸ hclean⟩
  | none =>
    obtain ⟨args, waits, fqdn, s₁, -, -, hfile', hparked⟩ := h.record.parked_next hold hr
    have hrow : some r = some (insertedRow D s₁ args) := hr.symm.trans (congrArg File.row hfile')
    cases hrow
    exact ⟨args, _, hparked, insertedRow_parent D s₁ args⟩

theorem inputOk_begin : InputOk D (queue D).begin_ where
  record := onRecord_begin D
  dropped _ _ hr := by cases hr
  parents _ _ hr := by cases hr

theorem inputOk_history (acts : List Act) : InputOk D (history D acts) :=
  (queue D).run_induct (inputOk_next D) (inputOk_begin D) acts

/-- A request that ended or whose run was claimed holds no secret-named value, in its own params
or in its parent's, exactly when its own park stored none in the resume context; one that ended
without a run has no custody row. -/
theorem run_input_dropped (acts : List Act) (id : Nat) (r : ApprovalRequest)
    (hr : rowOf (history D acts) id = some r) :
    ∃ args settings, parkedCall id (history D acts).events = some (args, settings) ∧
      (RunInputDropped (history D acts).state.store id r ↔
        (r.endedUnrun = true ∨ r.resumedAt.isSome = true → parksCleanParent D args = true)) := by
  have hinv := inputOk_history D acts
  obtain ⟨hparams, hcustody⟩ := hinv.dropped id r hr
  obtain ⟨args, settings, hparked, hparent⟩ := hinv.parents id r hr
  refine ⟨args, settings, hparked, ?_⟩
  rw [← hparent]
  constructor
  · intro h hend
    exact (h.1 hend).2
  · intro h
    exact ⟨fun hend => ⟨hparams hend, h hend⟩, hcustody⟩

/-- A step of a composite, parked with a password in its own params and in the parent's. -/
def parkedStep (parentPassword : Json) : CreateArgs :=
  { smallCall with
    params := [("vm", .str "vm-7"), ("password", .str "s3cret")]
    resumeParent := some ⟨"vm.provision", some [("password", parentPassword)], none, false⟩ }

/-- The step is parked and rejected. -/
def rejectedStep (parentPassword : Json) : List Act :=
  [.create (parkedStep parentPassword) false none,
    .reject Settings.default 1 1 0 (person "reviewer" .operator) ""]

/-- The row after the reject. -/
def rejectedRow (parentPassword : Json) : ApprovalRequest :=
  Closing.row (newRequest smallDeployment Store.empty (parkedStep parentPassword))
    (.reject (person "reviewer" .operator) 1)

/-- A parent without a secret: the reject hides the step's password. -/
theorem run_input_dropped_rejected :
    (rejectedRow .null).endedUnrun = true ∧
    RunInputDropped (history smallDeployment (rejectedStep .null)).state.store 0
      (rejectedRow .null) := by
  obtain ⟨args, settings, hparked, hiff⟩ :=
    run_input_dropped smallDeployment (rejectedStep .null) 0 (rejectedRow .null) rfl
  obtain ⟨rfl, -⟩ : parkedStep .null = args ∧ none = settings :=
    Prod.mk.inj (Option.some.inj ((show _ = some (parkedStep .null, none) from rfl).symm.trans hparked))
  exact ⟨by decide, hiff.mpr fun _ => by decide⟩

/-- The parent's password is still in the row after the reject. -/
theorem parent_secret_survives_reject :
    ¬∀ (D : Deployment) (acts : List Act) (id : Nat) (r : ApprovalRequest),
      rowOf (history D acts) id = some r →
      RunInputDropped (history D acts).state.store id r := by
  intro h
  have hrow := (h smallDeployment (rejectedStep (.str "s3cret")) 0
    (rejectedRow (.str "s3cret")) rfl).1 (.inl (by decide))
  revert hrow
  decide

end Meho.Approval
