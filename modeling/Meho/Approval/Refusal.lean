import Meho.Approval.Guarantees

/- What becomes of a refused run.

A run is refused when the release, the target's connection settings, the
preview or the object changed since the request was made. The refusal is stored
 in the column and in the shape of a failed run's result, so a re-run takes it
for one (`approval_rerun.py` asks only whether the stored result is ok). The
refused request therefore stays out of use exactly as long as every re-run of
it is turned away by a check of its own.

`refused_never_runs`: in a run where that is so at every step, nothing of the
request starts after its refusal. `refused_runs_after_restore`: a run where the
target is put back, and the refused request is dispatched. -/
namespace Meho.Approval
open Meho.Lib

variable (D : Deployment)

/-- The event records a refusal of the request. -/
def Event.isRefusal (id : Nat) : Event → Bool
  | .refused id' _ => id' = id
  | _ => false

/-- The checks of a re-run that read the target table and the live system. -/
def rerunChecksPass (inp : Inp) (s : Store) (j : Job) : Bool :=
  (match rehydrateResumeTarget D.hashing s j.operator j.request with
    | .ok _ => true
    | .error _ => false) &&
    !previewChangedSinceRequest j.request inp && (objectChangedSinceRequest j.request inp).isNone

/-- In this step no re-run of the request passes its checks, once the request was refused. -/
def rerunTurnedAway (id : Nat) (c : Config World Event) : Act → Bool
  | .advance pid inp =>
    match c.state.procs[pid]? with
    | some (.rerunTarget j _) =>
      !(j.requestId = id && c.events.any (·.isRefusal id) &&
        rerunChecksPass D inp c.state.store j)
    | _ => true
  | _ => true

/-! ## A re-run is only of a request that has had a result -/

/-- The request has had a result. -/
def ApprovalRequest.Ran (r : ApprovalRequest) : Prop :=
  r.resumeResult.isSome = true ∨ 0 < r.rerunCount

variable {r : ApprovalRequest}

theorem Closing.row_ran (c : Closing) (h : r.Ran) : (c.row r).Ran := by
  cases c <;> exact h

variable {id : Nat}

theorem FileStep.ran {f g : File} (h : FileStep id f g) (hr : f.row = some r) (hran : r.Ran) :
    ∃ r', g.row = some r' ∧ r'.Ran := by
  cases h with
  | queue hq =>
    cases hq with
    | keep _ _ => exact ⟨r, hr, hran⟩
    | create _ _ => cases hr
    | close c _ _ => cases hr; exact ⟨_, rfl, c.row_ran hran⟩
  | claim now _ _ _ => cases hr; exact ⟨_, rfl, hran⟩
  | record result _ _ _ => cases hr; exact ⟨_, rfl, .inl rfl⟩
  | reclaim _ _ => cases hr; exact ⟨_, rfl, .inr (Nat.succ_pos _)⟩

/-- What a re-run that got past its first read can count on. -/
def RerunReads (s : Store) : Proc → Prop
  | .rerunTarget j _ => ∃ r, s.requests[j.requestId]? = some r ∧ r.Ran
  | .rerunClaim j _ _ => ∃ r, s.requests[j.requestId]? = some r ∧ r.Ran
  | _ => True

variable {s : Store} {p : Proc}

theorem RerunReads.step {s' : Store} (h : RerunReads s p)
    (hf : ∀ id, FileStep id (s.file id) (s'.file id)) : RerunReads s' p := by
  cases p with
  | rerunTarget j params | rerunClaim j target params =>
    obtain ⟨r, hr, hran⟩ := h
    exact (hf j.requestId).ran hr hran
  | _ => trivial

theorem approvalResultState_failed (h : approvalResultState r = some .failed) :
    r.resumeResult.map resultOk = some false := by
  unfold approvalResultState at h
  split at h
  · cases h
  · cases hres : r.resumeResult with
    | none =>
      rw [hres] at h
      simp only at h
      split at h <;> cases h
    | some result =>
      rw [hres] at h
      cases hok : resultOk result with
      | false => rw [Option.map_some, hok]
      | true => simp [hok] at h

theorem notFailedState_none (h : notFailedState r = none) :
    r.resumeResult.map resultOk = some false := by
  apply approvalResultState_failed
  unfold notFailedState at h
  split at h
  · assumption
  · cases h
  · cases h
  · cases h
  · split at h <;> cases h

theorem rerunStartStep_reads (inp : Inp) (s : Store) (operator : Operator) (id : Nat)
    (params : Option Params) : RerunReads s (rerunStartStep D inp s operator id params) := by
  unfold rerunStartStep
  cases hload : s.loadForTenant id operator.tenantId with
  | none => trivial
  | some request =>
    simp only
    split
    · trivial
    · split
      · trivial
      · rename_i hfailed
        have hran : request.resumeResult.isSome = true := by
          obtain ⟨result, hres, -⟩ := Option.map_eq_some_iff.mp (notFailedState_none hfailed)
          rw [hres]; rfl
        repeat' split
        all_goals first
          | trivial
          | exact ⟨request, (Store.loadForTenant_eq_some hload).1, .inl hran⟩

variable {inp : Inp}

theorem procStep_reads (h : RerunReads s p) : RerunReads s (procStep D inp s p).2.1 := by
  cases p with
  | rerunStart operator id params => exact rerunStartStep_reads D inp s operator id params
  | rerunTarget j params =>
    simp only [procStep, rerunTargetStep]
    repeat' split
    all_goals trivial
  | resumeStart operator id request params =>
    simp only [procStep, resumeStartStep]
    repeat' split
    all_goals trivial
  | waiterStart operator id call =>
    simp only [procStep, waiterStartStep]
    repeat' split
    all_goals trivial
  | takeInput j target =>
    simp only [procStep, takeInputStep]
    repeat' split
    all_goals trivial
  | startRun j target params parent =>
    simp only [procStep]
    split
    · rcases afterRaise_cases j "KeyError" with heq | heq <;> (rw [heq]; trivial)
    · trivial
  | running j =>
    simp only [procStep]
    split
    · trivial
    · rename_i name _
      rcases afterRaise_cases j name with heq | heq <;> (rw [heq]; trivial)
  | _ =>
    simp only [procStep]
    repeat' split
    all_goals trivial

variable {c : Config World Event}

theorem worldStep_reads (hex : Exclusive c) (h : ∀ p ∈ c.state.procs, RerunReads c.state.store p)
    (a : Act) :
    ∀ p ∈ ((queue D).next c a).state.procs,
      RerunReads ((queue D).next c a).state.store p := by
  have hfile := next_file D hex a
  refine knowledge_step D (fun _ => trivial) (fun p hp => hp.step hfile) ?_ ?_ h
  · intro p hp
    cases hp <;> trivial
  · intro pid inp p _ _ hp
    exact (procStep_reads D hp).step hfile

/-! ## The refusal stays the last word -/

theorem over_stays (hex : Exclusive c) {n : Nat} (hsim : Sim c.state id (.ended n false))
    (hno : ¬c.state.AtRerunClaim id) (a : Act) :
    Sim ((queue D).next c a).state id (.ended n false) ∧
      marks id (worldStep D c.state a).2 = [] := by
  obtain ⟨t', hstep⟩ := (worldStep_move D hex.world a).ticket hex.world hsim
  have hsame : t' = .ended n false := by
    by_contra hne
    exact hno (hstep.retried n rfl hne)
  subst hsame
  refine ⟨hstep.sim, ?_⟩
  -- a ticket step from a failed result to itself is idle
  have hms := hstep.step
  generalize marks id (worldStep D c.state a).2 = ms at hms
  cases hms
  rfl

theorem procStep_refused {e : Event} (he : e ∈ (procStep D inp s p).2.2)
    (href : e.isRefusal id = true) :
    ∃ j cause, p = .refuseStore j cause ∧ j.requestId = id ∧ inp.writeFails = false := by
  cases p with
  | refuseStore j cause =>
    simp only [procStep] at he
    split at he
    · cases he
    · rename_i hwrite
      simp only [List.mem_cons, List.not_mem_nil, or_false] at he
      rcases he with rfl | rfl
      · cases href
      · simp only [Event.isRefusal, decide_eq_true_eq] at href
        exact ⟨j, cause, rfl, href, by simpa using hwrite⟩
  | _ =>
    simp only [procStep] at he
    repeat' split at he
    all_goals (simp at he)
    all_goals (subst he; cases href)

theorem worldStep_refused {w : World} {a : Act} {e : Event} (he : e ∈ (worldStep D w a).2)
    (href : e.isRefusal id = true) :
    ∃ pid inp j cause, a = .advance pid inp ∧ w.procs[pid]? = some (.refuseStore j cause) ∧
      j.requestId = id ∧ inp.writeFails = false := by
  cases a with
  | advance pid inp =>
    simp only [worldStep] at he
    split at he
    · cases he
    · rename_i p hp
      obtain ⟨j, cause, rfl, hid, hwrite⟩ := procStep_refused D he href
      exact ⟨pid, inp, j, cause, rfl, hp, hid, hwrite⟩
  | _ =>
    simp only [worldStep] at he
    repeat' split at he
    all_goals (simp at he)
    all_goals (subst he; cases href)

theorem procStep_rerunClaim {j : Job} {target : Option CallTarget} {params : Params}
    (h : (procStep D inp s p).2.1 = .rerunClaim j target params) :
    p = .rerunTarget j params ∧ rerunChecksPass D inp s j = true := by
  cases p with
  | rerunTarget j' params' =>
    simp only [procStep, rerunTargetStep] at h
    split at h
    · cases h
    · rename_i htarget
      split at h
      · cases h
      · rename_i hpreview
        split at h
        · cases h
        · rename_i hobject
          cases h
          -- the three checks of the re-run have passed one after the other
          refine ⟨rfl, ?_⟩
          simp only [rerunChecksPass, htarget]
          simp_all
  | rerunStart operator id params' =>
    simp only [procStep, rerunStartStep] at h
    repeat' split at h
    all_goals cases h
  | resumeStart operator id request params' =>
    simp only [procStep, resumeStartStep] at h
    repeat' split at h
    all_goals cases h
  | waiterStart operator id call =>
    simp only [procStep, waiterStartStep] at h
    repeat' split at h
    all_goals cases h
  | takeInput j' target' =>
    simp only [procStep, takeInputStep] at h
    repeat' split at h
    all_goals cases h
  | startRun j' target' params' parent =>
    simp only [procStep] at h
    split at h
    · rcases afterRaise_cases j' "KeyError" with heq | heq <;> (rw [heq] at h; cases h)
    · cases h
  | running j' =>
    simp only [procStep] at h
    split at h
    · cases h
    · rename_i name _
      rcases afterRaise_cases j' name with heq | heq <;> (rw [heq] at h; cases h)
  | _ =>
    simp only [procStep] at h
    repeat' split at h
    all_goals cases h

theorem no_rerunClaim {a : Act} (hno : ¬c.state.AtRerunClaim id)
    (href : ∃ e ∈ c.events, e.isRefusal id = true) (hcond : rerunTurnedAway D id c a = true) :
    ¬((queue D).next c a).state.AtRerunClaim id := by
  rintro ⟨j, target, params, hmem, hid⟩
  rcases worldStep_procs D hmem with hold | hdone | hnew | ⟨pid, inp, p, ha, hp, heq, -⟩
  · exact hno ⟨j, target, params, hold, hid⟩
  · cases hdone
  · cases hnew
  · obtain ⟨rfl, hpass⟩ := procStep_rerunClaim D heq.symm
    subst ha
    simp only [rerunTurnedAway, hp, hid, List.any_eq_true.mpr href, hpass] at hcond
    cases hcond

/-- The invariant: after a refusal, its failed result is the last word. -/
structure RefusalOk (id : Nat) (c : Config World Event) : Prop where
  exclusive : Exclusive c
  reads : ∀ p ∈ c.state.procs, RerunReads c.state.store p
  last : (∃ e ∈ c.events, e.isRefusal id = true) →
    Sim c.state id (.ended 0 false) ∧ ¬c.state.AtRerunClaim id
  silent : c.events.Pairwise fun e f => e.isRefusal id = true → f.isRun id = false

@[simp] theorem resultOk_envelope (id : Nat) (request : ApprovalRequest) (cause : RefusalCause) :
    resultOk (cause.envelope id request) = false := by
  simp [resultOk, RefusalCause.envelope, dictGetStr, dictGet, Json.asStr?]

theorem isRun_false_of_no_marks {es : List Event} (h : marks id es = []) :
    ∀ f ∈ es, f.isRun id = false := by
  intro f hf
  by_contra hne
  have hrun : f.isRun id = true := by simpa using hne
  have hnone : f.mark id = none := List.filterMap_eq_nil_iff.mp h f hf
  rcases mark_of_isRun hrun with ⟨n, hm⟩ | hm
  · rw [hnone] at hm
    cases hm
  · rw [hnone] at hm
    cases hm

theorem refusal_step {pid : Nat} {j : Job} {cause : RefusalCause} (h : RefusalOk id c)
    (hp : c.state.procs[pid]? = some (.refuseStore j cause)) (hid : j.requestId = id)
    (hwrite : inp.writeFails = false) :
    Sim ((queue D).next c (.advance pid inp)).state id (.ended 0 false) ∧
      ¬((queue D).next c (.advance pid inp)).state.AtRerunClaim id ∧
      (worldStep D c.state (.advance pid inp)).2 =
        [.recorded j.requestId (cause.envelope j.requestId j.request),
          .refused j.requestId cause] := by
  have hes : (worldStep D c.state (.advance pid inp)).2 =
      [.recorded j.requestId (cause.envelope j.requestId j.request),
        .refused j.requestId cause] := by
    simp [worldStep, hp, procStep, hwrite]
  have hprocs : ((queue D).next c (.advance pid inp)).state.procs =
      c.state.procs.set pid .done := by
    simp [queue, worldStep, hp, procStep, hwrite]
  -- the first run's job holds the request, so the ticket is at its first attempt
  obtain ⟨t, -, hsim⟩ := h.exclusive.tickets id
  obtain ⟨stage, ht, -⟩ := hsim.holder ⟨_, hp, rfl⟩ hid
  have hfirst : j.path ≠ .rerun := h.exclusive.world.first _ (List.mem_of_getElem? hp)
  rw [j.firstRun hfirst] at ht
  subst ht
  obtain ⟨t', hstep⟩ :=
    (worldStep_move D h.exclusive.world (.advance pid inp)).ticket h.exclusive.world hsim
  have hms := hstep.step
  rw [hes, marks_refused, if_pos hid, resultOk_envelope] at hms
  refine ⟨?_, ?_, hes⟩
  · cases hms
    exact hstep.sim
  · rintro ⟨j', target, params, hmem, hid'⟩
    rw [hprocs] at hmem
    rcases List.mem_or_eq_of_mem_set hmem with hold | hdone
    · -- a re-run there would have read a result, and there is none yet
      obtain ⟨r, hr, hran⟩ := h.reads _ hold
      obtain ⟨⟨r', hr', hc, hres⟩, -⟩ := hsim
      rw [hid', hr'] at hr
      cases hr
      rcases hran with hsome | hcount
      · rw [hres] at hsome
        cases hsome
      · rw [hc.rerunCount] at hcount
        exact absurd hcount (Nat.lt_irrefl 0)
    · cases hdone

theorem refusalOk_next (c : Config World Event) (a : Act) (h : RefusalOk id c)
    (hcond : rerunTurnedAway D id c a = true) : RefusalOk id ((queue D).next c a) := by
  have hex := exclusive_next D c a h.exclusive
  have hreads := worldStep_reads D h.exclusive h.reads a
  by_cases href : ∃ e ∈ c.events, e.isRefusal id = true
  · -- refused before: nothing happens to the request
    obtain ⟨hsim, hno⟩ := h.last href
    obtain ⟨hsim', hms⟩ := over_stays D h.exclusive hsim hno a
    refine ⟨hex, hreads, fun _ => ⟨hsim', no_rerunClaim D hno href hcond⟩, ?_⟩
    have hquiet := isRun_false_of_no_marks hms
    rw [Machine.next_events, List.pairwise_append]
    refine ⟨h.silent, ?_, fun e _ f hf _ => hquiet f hf⟩
    exact List.pairwise_of_forall_mem_list fun e _ f hf _ => hquiet f hf
  · have hold : ∀ e ∈ c.events, e.isRefusal id = false := by
      intro e he
      by_contra hne
      exact href ⟨e, he, by simpa using hne⟩
    by_cases hnew : ∃ e ∈ (worldStep D c.state a).2, e.isRefusal id = true
    · obtain ⟨e, he, hre⟩ := hnew
      obtain ⟨pid, inp, j, cause, rfl, hp, hid, hwrite⟩ := worldStep_refused D he hre
      obtain ⟨hsim, hno, hes⟩ := refusal_step D h hp hid hwrite
      refine ⟨hex, hreads, fun _ => ⟨hsim, hno⟩, ?_⟩
      rw [Machine.next_events, List.pairwise_append]
      refine ⟨h.silent, ?_, ?_⟩
      · change (worldStep D c.state (.advance pid inp)).2.Pairwise _
        rw [hes]
        simp [Event.isRefusal]
      · intro e he f hf hr
        rw [hold e he] at hr
        cases hr
    · have hnone : ∀ e ∈ ((queue D).next c a).events, e.isRefusal id = false := by
        intro e he
        rw [Machine.next_events] at he
        rcases List.mem_append.mp he with h₁ | h₂
        · exact hold e h₁
        · by_contra hne
          exact hnew ⟨e, h₂, by simpa using hne⟩
      refine ⟨hex, hreads, ?_, ?_⟩
      · rintro ⟨e, he, hr⟩
        rw [hnone e he] at hr
        cases hr
      · refine List.pairwise_of_forall_mem_list fun e he f _ hr => ?_
        rw [hnone e he] at hr
        cases hr

theorem refusalOk_begin (id : Nat) : RefusalOk id (queue D).begin_ where
  exclusive := exclusive_begin D
  reads p hp := by cases hp
  last := by
    rintro ⟨e, he, -⟩
    cases he
  silent := List.Pairwise.nil

/-- In a run where every re-run of a refused request is turned away by its own checks, nothing
of the request starts after its refusal. -/
theorem refused_never_runs (acts : List Act) (id : Nat)
    (h : (queue D).Along (fun c a => rerunTurnedAway D id c a = true) (queue D).begin_ acts) :
    (history D acts).events.Pairwise fun e f => e.isRefusal id = true → f.isRun id = false :=
  ((queue D).along_induct (refusalOk_next D) (refusalOk_begin D id) h).silent

/-- The target changes between the approval and the run, so the run is refused. -/
def refusedRun : List Act :=
  [.addTarget ⟨0, false, smallSettings "vc-1"⟩, .create smallCall false none, smallApprove,
    .editTarget 0 (smallSettings "vc-2"), .advance 0 smallInp, .advance 0 smallInp,
    .advance 0 smallInp, .advance 0 smallInp, .advance 0 smallInp, .advance 0 smallInp]

/-- The sender asks for a re-run; `n` steps of it. -/
def rerunOf (n : Nat) : List Act :=
  .rerun (person "asker" .operator) 0 none :: List.replicate n (.advance 1 smallInp)

/-- The target stays changed: the re-run is turned away, and the refusal is the last word. -/
theorem refused_never_runs_target_changed :
    (history smallDeployment (refusedRun ++ rerunOf 3)).events.Pairwise fun e f =>
      e.isRefusal 0 = true → f.isRun 0 = false :=
  refused_never_runs smallDeployment (refusedRun ++ rerunOf 3) 0 (by decide)

/-- The target is put back and the sender re-runs: the refused request is dispatched. -/
theorem refused_runs_after_restore :
    ¬∀ (D : Deployment) (acts : List Act) (id : Nat),
      (history D acts).events.Pairwise fun e f => e.isRefusal id = true → f.isRun id = false := by
  intro h
  have hrun := h smallDeployment
    (refusedRun ++ [.editTarget 0 (smallSettings "vc-1")] ++ rerunOf 4) 0
  revert hrun
  decide

end Meho.Approval
