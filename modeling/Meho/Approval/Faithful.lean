import Meho.Approval.Origin

/- What a run of an approved request may start.

An approval is given for one call, and four paths consume it: the operator's
resume, the agent's waiter, the re-run and the remote-write mint. Each of them
derives the call it starts by itself. `Knows` says what a process knows, at
every point it can stand at, about the call its request was parked with; every
step keeps it (`knows_step`).

`runs_only_the_parked_call`: a started call has the tenant, the connector and
the target of the parked call, with the connection settings the target had then
(the waiter may name its own virtual host), and the op and the params of the
parked call, or of the composite it was a step of. A minted call has its
tenant, op, target and params. `composite_step_runs_parent`: the call that is
started for a step of a composite is the composite's, not the step's. -/
namespace Meho.Approval
open Meho.Lib

variable (D : Deployment)

/-! ## The call a run may start -/

/-- What both callers of `create_pending_request` pass: the hash is the one of the params, and
a key comes with a call of its own, never with a step of a composite. -/
structure CreateArgs.Promised (args : CreateArgs) : Prop where
  paramsHash : args.paramsHash = D.hashing.params args.params
  idempotencyKey : args.idempotencyKey.isSome = true → args.resumeParent = none

def Act.Promised : Act → Prop
  | .create args _ _ => args.Promised D
  | _ => True

/-- The callers kept their promise for every request that was parked. -/
def Promises (es : List Event) : Prop :=
  ∀ id args settings, parkedCall id es = some (args, settings) → args.Promised D

/-- The params have the hash of the parked call, the reveal flag aside. -/
def Fits (args : CreateArgs) (params : Params) : Prop :=
  ∃ q, paramsHashMatches D.hashing q args.paramsHash = true ∧ callParams params = callParams q

/-- The target of the parked call, with the settings it had then. The waiter may put the
virtual host of its own call on it. -/
def SameTarget (args : CreateArgs) (settings : Option TargetSettings) (path : RunPath)
    (target : Option CallTarget) : Prop :=
  match args.targetId with
  | none => target = none
  | some id => ∃ t, (∀ s, settings = some s → D.hashing.target t = D.hashing.target s) ∧
      (target = some (id, t) ∨
        path = .agentWaiter ∧ ∃ fqdn, target = some (id, { t with fqdn := some fqdn }))

/-- The call a run may start for a request parked with `args`: the parked call, or for a step of
a composite the composite's. -/
structure Authorised (args : CreateArgs) (settings : Option TargetSettings) (path : RunPath)
    (call : Call) : Prop where
  tenantId : call.tenantId = args.operator.tenantId
  connectorId : call.connectorId = args.connectorId
  target : SameTarget D args settings path call.target
  direct : args.resumeParent = none → call.opId = args.opId ∧ Fits D args call.params
  parent : ∀ parent, args.resumeParent = some parent → call.opId = parent.opId ∧
    ∃ p, parent.params = some p ∧ callParams call.params = callParams p

/-- The call a mint may start for a request parked with `args`. -/
structure AuthorisedMint (args : CreateArgs) (call : Call) : Prop where
  tenantId : call.tenantId = args.operator.tenantId
  opId : call.opId = args.opId
  targetId : call.target.map (·.1) = args.targetId
  params : paramsHashMatches D.hashing call.params args.paramsHash = true

variable {D}

theorem Fits.refl {args : CreateArgs} (h : args.Promised D) : Fits D args args.params :=
  ⟨args.params, by rw [h.paramsHash]; exact paramsHashMatches_self D.hashing args.params, rfl⟩

theorem Fits.of_matches {args : CreateArgs} {p : Params}
    (h : paramsHashMatches D.hashing p args.paramsHash = true) : Fits D args p := ⟨p, h, rfl⟩

theorem Fits.congr {args : CreateArgs} {p q : Params} (h : Fits D args p)
    (hq : callParams q = callParams p) : Fits D args q := by
  obtain ⟨r, hr, heq⟩ := h
  exact ⟨r, hr, hq.trans heq⟩

/-! ## What a process knows about the call of its request -/

variable (D)

/-- A job is about the request parked with `args`: it read its row, in its tenant, and a call of
its own would be the parked one. -/
structure Job.About (es : List Event) (j : Job) (args : CreateArgs)
    (settings : Option TargetSettings) : Prop where
  origin : Origin D es j.requestId args settings j.request
  tenantId : j.operator.tenantId = args.operator.tenantId
  fqdn : j.path ≠ .agentWaiter → j.fqdn = none
  waiter : j.path = .agentWaiter → j.params.isSome = true
  direct : args.resumeParent = none → j.opId = args.opId ∧ ∀ p, j.params = some p → Fits D args p

/-- What a run dispatches when it is not the parent composite's call. -/
def InputFits (args : CreateArgs) (params : Params) (parent : Option ResumeParent) : Prop :=
  parent = args.resumeParent ∧ (args.resumeParent = none → Fits D args params)

def Knows (es : List Event) : Proc → Prop
  | .resumeStart operator id request params => ∃ args settings,
      Origin D es id args settings request ∧ operator.tenantId = args.operator.tenantId ∧
      ∀ p, params = some p → paramsHashMatches D.hashing p args.paramsHash = true
  | .waiterStart _ id call => ∃ args settings, parkedCall id es = some (args, settings) ∧
      (args.resumeParent = none → call.opId = args.opId ∧ Fits D args call.params)
  | .checkTarget j => ∃ args settings, j.About D es args settings
  | .takeClaim j target => ∃ args settings, j.About D es args settings ∧
      SameTarget D args settings j.path target
  | .takeInput j target => ∃ args settings, j.About D es args settings ∧
      SameTarget D args settings j.path target
  | .checkPreview j target params parent => ∃ args settings, j.About D es args settings ∧
      SameTarget D args settings j.path target ∧ InputFits D args params parent
  | .startRun j target params parent => ∃ args settings, j.About D es args settings ∧
      SameTarget D args settings j.path target ∧ InputFits D args params parent
  | .rerunTarget j params => j.path = .rerun ∧ ∃ args settings, j.About D es args settings ∧
      InputFits D args params j.request.resumeParent
  | .rerunClaim j target params => j.path = .rerun ∧ ∃ args settings,
      j.About D es args settings ∧ SameTarget D args settings j.path target ∧
      InputFits D args params j.request.resumeParent
  | .mintClaim call id approval => ∃ args settings, Origin D es id args settings approval ∧
      approval.tenantId = call.operator.tenantId ∧ approval.opId = call.opId ∧
      paramsHashMatches D.hashing call.params approval.paramsHash = true ∧
      approval.targetId = call.target.map (·.1)
  | _ => True

variable {D}

theorem Job.About.append {es : List Event} {j : Job} {args : CreateArgs}
    {settings : Option TargetSettings} (h : j.About D es args settings) (new : List Event) :
    j.About D (es ++ new) args settings := { h with origin := h.origin.append new }

variable {p : Proc}

theorem Knows.append {es : List Event} (h : Knows D es p) (new : List Event) :
    Knows D (es ++ new) p := by
  cases p with
  | resumeStart operator id request params | mintClaim call id approval =>
    obtain ⟨args, settings, horigin, hrest⟩ := h
    exact ⟨args, settings, horigin.append new, hrest⟩
  | waiterStart operator id call =>
    obtain ⟨args, settings, hparked, hrest⟩ := h
    exact ⟨args, settings, parkedCall_append hparked new, hrest⟩
  | checkTarget j =>
    obtain ⟨args, settings, hj⟩ := h
    exact ⟨args, settings, hj.append new⟩
  | takeClaim j target | takeInput j target | checkPreview j target params parent
  | startRun j target params parent =>
    obtain ⟨args, settings, hj, hrest⟩ := h
    exact ⟨args, settings, hj.append new, hrest⟩
  | rerunTarget j params | rerunClaim j target params =>
    obtain ⟨hpath, args, settings, hj, hrest⟩ := h
    exact ⟨hpath, args, settings, hj.append new, hrest⟩
  | _ => trivial

/-! ## One step of a process keeps what it knows -/

section Steps
variable {es : List Event} {s : Store} {args : CreateArgs} {settings : Option TargetSettings}

variable {id : Nat} {request : ApprovalRequest}

theorem storedCall_fits {params : Option Params} {p : Params} (hes : Promises D es)
    (ho : Origin D es id args settings request)
    (hparams : ∀ q, params = some q → paramsHashMatches D.hashing q args.paramsHash = true)
    (h : storedCall request params = some p) : Fits D args p := by
  unfold storedCall at h
  split at h
  · rename_i q
    cases h
    exact ⟨q, hparams q rfl, callParams_callParams q⟩
  · split at h
    · cases h
    · rename_i stored hstored
      split at h
      · cases h
      · rename_i hshown
        cases h
        rcases ho.params p hstored with rfl | hhidden
        · exact Fits.refl (hes id args settings ho.parked)
        · exact absurd hhidden hshown

variable {operator : Operator} {target : Option CallTarget}

theorem rehydrateResumeTarget_same (path : RunPath) (ho : Origin D es id args settings request)
    (h : rehydrateResumeTarget D.hashing s operator request = .ok target) :
    SameTarget D args settings path target := by
  have htarget : request.targetId = args.targetId := ho.call.targetId
  have hhash : request.targetHash = settings.map D.hashing.target := ho.call.targetHash
  unfold rehydrateResumeTarget at h
  unfold SameTarget
  rw [← htarget]
  cases hid : request.targetId with
  | none =>
    rw [hid] at h
    cases h
    rfl
  | some tid =>
    rw [hid] at h
    simp only at h ⊢
    split at h
    · cases h
    · rename_i t _
      split at h
      · cases h
      · rename_i hsame
        cases h
        refine ⟨t.settings, ?_, .inl rfl⟩
        intro before hbefore
        rw [hbefore] at hhash
        simpa [targetChangedSinceRequest, hhash] using hsame

variable {j : Job}

theorem applyTargetFqdnOverride_same (hj : j.About D es args settings)
    (h : SameTarget D args settings .operatorResume target) :
    SameTarget D args settings j.path (applyTargetFqdnOverride j.fqdn target) := by
  unfold SameTarget at *
  cases hid : args.targetId with
  | none =>
    rw [hid] at h
    simp only at h ⊢
    rw [h]
    cases j.fqdn <;> rfl
  | some tid =>
    rw [hid] at h
    simp only at h ⊢
    obtain ⟨t, hhash, rfl | ⟨hpath, -⟩⟩ := h
    · refine ⟨t, hhash, ?_⟩
      cases hf : j.fqdn with
      | none => exact .inl rfl
      | some fqdn =>
        have hpath : j.path = .agentWaiter := by
          by_contra hne
          rw [hj.fqdn hne] at hf
          cases hf
        simp only [applyTargetFqdnOverride]
        split
        · exact .inl rfl
        · exact .inr ⟨hpath, fqdn, rfl⟩
    · cases hpath

theorem consumeHandoff_payload {handle tenantId : Nat} {payload : HandoffPayload} {s' : Store}
    (hs : Recorded D es s) (hj : j.About D es args settings)
    (h : consumeHandoff handle j.requestId tenantId s = some (payload, s')) :
    payload = ⟨args.params, args.resumeParent⟩ := by
  obtain ⟨⟨k, hk, -, hid, hpayload⟩, -, -⟩ := consumeHandoff_some h
  obtain ⟨args', settings', hparked, heq⟩ := hs.custody k hk
  rw [hid, hj.origin.parked] at hparked
  cases hparked
  rw [← hpayload, heq]

theorem Job.About.direct_waiter (hj : j.About D es args settings) (hpath : j.path = .agentWaiter)
    (hdirect : args.resumeParent = none) : Fits D args (j.params.getD []) := by
  obtain ⟨p, hp⟩ := Option.isSome_iff_exists.mp (hj.waiter hpath)
  rw [hp]
  exact (hj.direct hdirect).2 p hp

theorem takeInputStep_knows (hes : Promises D es) (hs : Recorded D es s)
    (hj : j.About D es args settings) (ht : SameTarget D args settings j.path target) :
    Knows D es (takeInputStep D s j target).2 := by
  have hparent : j.request.executionHandle = none → j.request.resumeParent = args.resumeParent :=
    hj.origin.call.parent
  have hnone : j.request.resumeParent = none ↔ args.resumeParent = none := hj.origin.call.noParent
  unfold takeInputStep
  split
  · rename_i hpath
    split
    · split
      · trivial
      · -- the waiter of a composite step of a credential write
        rename_i payload s' hc
        cases consumeHandoff_payload hs hj hc
        exact ⟨args, settings, hj, ht, rfl, hj.direct_waiter hpath⟩
    · rename_i parent handle hnot
      refine ⟨args, settings, hj, ht, ?_, hj.direct_waiter hpath⟩
      -- without a parent or without a handle the row has the parent as it was parked
      cases hp : j.request.resumeParent with
      | none => exact (hnone.mp hp).symm
      | some q =>
        have hhandle : j.request.executionHandle = none := by
          cases hh : j.request.executionHandle with
          | none => rfl
          | some handle => exact absurd hh (hnot q handle hp)
        rw [← hparent hhandle, hp]
  · split
    · rename_i handle hh
      split
      · trivial
      · rename_i payload s' hc
        cases consumeHandoff_payload hs hj hc
        split
        · refine ⟨args, settings, hj, ht, ?_, fun _ => Fits.refl (hes _ _ _ hj.origin.parked)⟩
          cases hp : args.resumeParent with
          | none => exact hnone.mpr hp
          | some q => rfl
        · trivial
    · rename_i hh
      split
      · rename_i p hp
        exact ⟨args, settings, hj, ht, hparent hh, fun hdirect => (hj.direct hdirect).2 p hp⟩
      · trivial

theorem resumeStartStep_knows (inp : Inp) {params : Option Params} (hes : Promises D es)
    (h : Knows D es (.resumeStart operator id request params)) :
    Knows D es (resumeStartStep inp operator id request params) := by
  obtain ⟨args, settings, ho, ht, hp⟩ := h
  have hj : Job.About D es ⟨.operatorResume, operator, id, request, storedCall request params,
      request.opId, none, 0, fun _ => rfl⟩ args settings :=
    ⟨ho, ht, fun _ => rfl, fun hpath => (by cases hpath),
      fun _ => ⟨ho.call.opId, fun _ hq => storedCall_fits hes ho hp hq⟩⟩
  unfold resumeStartStep
  simp only
  repeat' split
  all_goals first
    | trivial
    | exact ⟨args, settings, hj⟩

theorem waiterStartStep_knows (inp : Inp) {call : CallArguments} (hs : Recorded D es s)
    (h : Knows D es (.waiterStart operator id call)) :
    Knows D es (waiterStartStep inp s operator id call) := by
  obtain ⟨args, settings, hparked, hcall⟩ := h
  unfold waiterStartStep
  split
  · trivial
  · split
    · trivial
    · rename_i request hload
      obtain ⟨hrow, hten⟩ := Store.loadForTenant_eq_some hload
      obtain ⟨args', settings', ho⟩ := hs.rows id request hrow
      cases hparked.symm.trans ho.parked
      have hj : Job.About D es ⟨.agentWaiter, operator, id, request, some call.params, call.opId,
          call.fqdn, 0, fun _ => rfl⟩ args settings := by
        refine ⟨ho, hten.symm.trans ho.call.tenantId, fun hne => absurd rfl hne, fun _ => rfl, ?_⟩
        intro hdirect
        refine ⟨(hcall hdirect).1, fun p hp => ?_⟩
        cases hp
        exact (hcall hdirect).2
      simp only
      repeat' split
      all_goals first
        | trivial
        | exact ⟨args, settings, hj⟩

/-- The checks of a re-run that need no database read leave params of the right hash, and a
parent with its params. -/
theorem staticRefusal_none {inp : Inp} {params : Params}
    (h : staticRefusal D inp request params = none) :
    paramsHashMatches D.hashing params request.paramsHash = true ∧
      ∀ p, request.resumeParent = some p → p.params ≠ none := by
  unfold staticRefusal at h
  split at h
  · cases h
  · split at h
    · cases h
    · split at h
      · cases h
      · split at h
        · cases h
        · rename_i hhash
          split at h
          · cases h
          · rename_i hkept
            refine ⟨by simpa using hhash, fun p hp hnone => hkept ?_⟩
            rw [hp, Option.map_some, hnone]
            rfl

theorem rerunStartStep_knows (inp : Inp) (operator : Operator) (id : Nat)
    (params : Option Params) (hs : Recorded D es s) :
    Knows D es (rerunStartStep D inp s operator id params) := by
  unfold rerunStartStep
  split
  · trivial
  · rename_i request hload
    obtain ⟨hrow, hten⟩ := Store.loadForTenant_eq_some hload
    obtain ⟨args, settings, ho⟩ := hs.rows id request hrow
    split
    · trivial
    · simp only
      split
      · trivial
      · split
        · trivial
        · rename_i p hp
          split
          · trivial
          · rename_i hstatic
            obtain ⟨hhash, hkept⟩ := staticRefusal_none hstatic
            have hfits : Fits D args p := Fits.of_matches (ho.call.paramsHash ▸ hhash)
            refine ⟨rfl, args, settings, ⟨ho, hten.symm.trans ho.call.tenantId, fun _ => rfl,
              fun hpath => (by cases hpath), fun _ => ⟨ho.call.opId, ?_⟩⟩, ?_, fun _ => hfits⟩
            · intro q hq
              cases hp.symm.trans hq
              exact hfits
            · -- a stripped parent was refused, so the row's parent is the parked one
              cases hparent : request.resumeParent with
              | none => exact (ho.call.noParent.mp hparent).symm
              | some q =>
                have hhandle : request.executionHandle = none := by
                  by_contra hsome
                  exact hkept q hparent (ho.call.stripped hsome q hparent)
                rw [← ho.call.parent hhandle]
                exact hparent.symm

theorem rerunTargetStep_knows (inp : Inp) {params : Params} (h : Knows D es (.rerunTarget j params)) :
    Knows D es (rerunTargetStep D inp s j params) := by
  obtain ⟨hpath, args, settings, hj, hin⟩ := h
  unfold rerunTargetStep
  split
  · trivial
  · rename_i target htarget
    split
    · trivial
    · split
      · trivial
      · exact ⟨hpath, args, settings, hj, rehydrateResumeTarget_same j.path hj.origin htarget, hin⟩

theorem afterRaise_knows (j : Job) (name : String) : Knows D es (afterRaise j name) := by
  rcases afterRaise_cases j name with heq | heq <;> (rw [heq]; trivial)

/-- Every step of a process keeps what it knows. -/
theorem knows_step (inp : Inp) {p : Proc} (hes : Promises D es) (hs : Recorded D es s)
    (h : Knows D es p) :
    Knows D es (procStep D inp s p).2.1 := by
  cases p with
  | resumeStart operator id request params => exact resumeStartStep_knows inp hes h
  | waiterStart operator id call => exact waiterStartStep_knows inp hs h
  | rerunStart operator id params => exact rerunStartStep_knows inp operator id params hs
  | checkTarget j =>
    obtain ⟨args, settings, hj⟩ := h
    simp only [procStep]
    split
    · trivial
    · rename_i target htarget
      -- only the host name that the approver gave may differ from the signed target
      exact ⟨args, settings, hj,
        applyTargetFqdnOverride_same hj (rehydrateResumeTarget_same _ hj.origin htarget)⟩
  | takeClaim j target =>
    simp only [procStep]
    split
    · trivial
    · split
      · trivial
      · exact h
  | takeInput j target =>
    obtain ⟨args, settings, hj, ht⟩ := h
    exact takeInputStep_knows hes hs hj ht
  | checkPreview j target params parent =>
    simp only [procStep]
    split
    · trivial
    · exact h
  | startRun j target params parent =>
    simp only [procStep]
    split
    · exact afterRaise_knows j _
    · trivial
  | running j =>
    simp only [procStep]
    split
    · trivial
    · exact afterRaise_knows j _
  | rerunTarget j params => exact rerunTargetStep_knows inp h
  | rerunClaim j target params =>
    obtain ⟨hpath, args, settings, hj, ht, hin⟩ := h
    simp only [procStep]
    split
    · trivial
    · rename_i count s' hc
      -- a re-run carries no host name of its own
      have hfqdn : j.fqdn = none := hj.fqdn (by rw [hpath]; decide)
      rw [hpath] at ht
      refine ⟨args, settings, ⟨hj.origin, hj.tenantId, fun _ => hfqdn, ?_, hj.direct⟩, ht, hin⟩
      intro hwaiter
      cases hwaiter
  | mintStart call =>
    simp only [procStep]
    split
    · trivial
    · rename_i id approval hfind
      split
      · trivial
      · obtain ⟨hrow, ht, ho, hp, -, -, htg⟩ := findRemoteWriteApproval_some D s hfind
        obtain ⟨args, settings, horigin⟩ := hs.rows id approval hrow
        exact ⟨args, settings, horigin, ht, ho, hp, htg⟩
  | _ =>
    simp only [procStep]
    repeat' split
    all_goals trivial

end Steps

variable {id : Nat} {call : Call}

theorem procStep_minted {inp : Inp} {s : Store} (h : .minted id call ∈ (procStep D inp s p).2.2) :
    ∃ mint approval, p = .mintClaim mint id approval ∧ call = mint.call := by
  cases p with
  | mintClaim mint id' approval =>
    simp only [procStep] at h
    split at h
    · cases h
    · cases List.mem_singleton.mp h
      exact ⟨mint, approval, rfl, rfl⟩
  | _ =>
    simp only [procStep] at h
    repeat' split at h
    all_goals simp at h

theorem worldStep_minted {w : World} {a : Act} (h : .minted id call ∈ (worldStep D w a).2) :
    ∃ mint approval, .mintClaim mint id approval ∈ w.procs ∧ call = mint.call := by
  cases a with
  | advance pid inp =>
    simp only [worldStep] at h
    split at h
    · cases h
    · rename_i p hp
      obtain ⟨mint, approval, rfl, hcall⟩ := procStep_minted h
      exact ⟨mint, approval, List.mem_of_getElem? hp, hcall⟩
  | _ =>
    simp only [worldStep] at h
    repeat' split at h
    all_goals simp at h

theorem runCall_authorised {es : List Event} {j : Job} {target : Option CallTarget}
    {params : Params} {parent : Option ResumeParent}
    (h : Knows D es (.startRun j target params parent))
    (hcall : runCall j target params parent = some call) :
    ∃ args settings, parkedCall j.requestId es = some (args, settings) ∧
      Authorised D args settings j.path call := by
  obtain ⟨args, settings, hj, ht, hparent, hfits⟩ := h
  -- the reveal flag is the only thing a run adds to the params
  have hflag : ∀ d : Params, callParams (if j.path ≠ .agentWaiter ∧ j.request.revealSecret then
      withRevealSecret d else d) = callParams d := by
    intro d
    split
    · exact callParams_withRevealSecret d
    · rfl
  refine ⟨args, settings, hj.origin.parked, ?_⟩
  unfold runCall at hcall
  subst hparent
  cases hp : args.resumeParent with
  | none =>
    rw [hp] at hcall
    cases hcall
    refine ⟨hj.tenantId, hj.origin.call.connectorId, ht, fun _ => ⟨(hj.direct hp).1, ?_⟩, ?_⟩
    · exact (hfits hp).congr (hflag params)
    · intro q hq
      rw [hp] at hq
      cases hq
  | some q =>
    rw [hp] at hcall
    obtain ⟨d, hd, rfl⟩ := Option.map_eq_some_iff.mp hcall
    obtain ⟨kept, hkept, rfl⟩ := Option.map_eq_some_iff.mp hd
    refine ⟨hj.tenantId, hj.origin.call.connectorId, ht, ?_, ?_⟩
    · intro hnone
      rw [hp] at hnone
      cases hnone
    · intro q' hq'
      cases hp.symm.trans hq'
      exact ⟨rfl, kept, hkept, hflag kept⟩

theorem mint_authorised {es : List Event} {mint : MintCall} {approval : ApprovalRequest}
    (h : Knows D es (.mintClaim mint id approval)) :
    ∃ args settings, parkedCall id es = some (args, settings) ∧ AuthorisedMint D args mint.call := by
  obtain ⟨args, settings, ho, ht, hop, hp, htg⟩ := h
  refine ⟨args, settings, ho.parked, ht.symm.trans ho.call.tenantId, hop.symm.trans ho.call.opId,
    htg.symm.trans ho.call.targetId, ?_⟩
  rw [← ho.call.paramsHash]
  exact hp

variable (D)

/-- The invariant: the processes know what was parked, and every call that was started is the
one its request was parked with. -/
structure Faithful (c : Config World Event) : Prop where
  onRecord : OnRecord D c
  promises : Promises D c.events
  procs : ∀ p ∈ c.state.procs, Knows D c.events p
  started : ∀ id path attempt call, .started id path attempt call ∈ c.events →
    ∃ args settings, parkedCall id c.events = some (args, settings) ∧
      Authorised D args settings path call
  minted : ∀ id call, .minted id call ∈ c.events →
    ∃ args settings, parkedCall id c.events = some (args, settings) ∧ AuthorisedMint D args call

variable {D} {c : Config World Event} {a : Act}

theorem Faithful.spawned (h : Faithful D c) (ha : a.Promised D) (hp : Spawned D c.state a p) :
    Knows D ((queue D).next c a).events p := by
  have hbefore := h.onRecord.recorded.append (worldStep D c.state a).2
  have hafter := (onRecord_next D c a h.onRecord).recorded
  cases hp with
  | @waiter args fqdn id s' hc =>
    obtain ⟨hstore, -⟩ := worldStep_create D true fqdn hc
    obtain ⟨s₁, hfree, ⟨r, hr, hholder, hkey, rfl⟩ | ⟨hid, rfl⟩⟩ := createPendingRequest_cases hc
    · -- a retry of the same call is handed the request of the first
      have hrow : ((queue D).next c (.create args true fqdn)).state.store.requests[id]? = some r := by
        rw [Machine.next_state]
        change (worldStep D c.state _).1.store.requests[id]? = some r
        rw [hstore, hr]
      obtain ⟨args₀, settings, ho⟩ := hafter.rows id r hrow
      refine ⟨args₀, settings, ho.parked, fun _ => ?_⟩
      have hparent : args.resumeParent = none := ha.idempotencyKey hkey
      have hhash := hholder.paramsHash
      rw [show r.paramsHash = args₀.paramsHash from ho.call.paramsHash] at hhash
      simp only [waiterCall, hparent]
      exact ⟨hholder.opId.symm.trans ho.call.opId, Fits.of_matches hhash⟩
    · have hlt : id < (insertRequest D args s₁).requests.length := by
        rw [length_insertRequest, hid]
        exact Nat.lt_succ_self _
      have hnone : c.state.store.requests[id]? = none := by
        apply List.getElem?_eq_none_iff.mpr
        exact Nat.le_of_eq (by rw [hid, hfree.keeps.length])
      have hrow : ((queue D).next c (.create args true fqdn)).state.store.requests[id]? =
          some ((insertRequest D args s₁).requests[id]) := by
        rw [Machine.next_state]
        change (worldStep D c.state _).1.store.requests[id]? = _
        rw [hstore, List.getElem?_eq_getElem hlt]
      obtain ⟨args', waits', fqdn', s₂, heq, -, -, hparked⟩ := h.onRecord.parked_next hnone hrow
      cases heq
      refine ⟨args, _, hparked, fun hparent => ?_⟩
      unfold waiterCall
      rw [hparent]
      exact ⟨rfl, Fits.refl ha⟩
  | @approved settings clock id operator params reason auth request rule s' hc =>
    obtain ⟨r, singleUse, delegation, hchecks, rfl, -⟩ := approveRequest_ok hc
    obtain ⟨args, st, ho⟩ := hbefore.rows id r hchecks.loaded
    refine ⟨args, st, ⟨ho.parked, ho.call, ho.params⟩,
      hchecks.tenant.symm.trans ho.call.tenantId, ?_⟩
    intro p hp
    rw [← ho.call.paramsHash]
    exact hchecks.hash p hp
  | @resume operator id request hload =>
    obtain ⟨hrow, hten⟩ := Store.loadForTenant_eq_some hload
    obtain ⟨args, st, ho⟩ := hbefore.rows id request hrow
    exact ⟨args, st, ho, hten.symm.trans ho.call.tenantId, fun p hp => by cases hp⟩
  | rerun operator id params => trivial
  | mint call => trivial

variable (D)

theorem promises_next (c : Config World Event) (a : Act) (h : Promises D c.events)
    (ha : a.Promised D) : Promises D ((queue D).next c a).events := by
  intro id args settings hp
  rw [Machine.next_events, parkedCall, List.findSome?_append] at hp
  cases hold : parkedCall id c.events with
  | some p =>
    unfold parkedCall at hold
    rw [hold] at hp
    cases hp
    exact h id args settings hold
  | none =>
    unfold parkedCall at hold
    rw [hold] at hp
    obtain ⟨waits, fqdn, rfl⟩ := worldStep_parked_create (parkedCall_mem hp)
    exact ha

theorem faithful_next (c : Config World Event) (a : Act) (h : Faithful D c) (ha : a.Promised D) :
    Faithful D ((queue D).next c a) where
  onRecord := onRecord_next D c a h.onRecord
  promises := promises_next D c a h.promises ha
  procs := by
    have hbefore := h.onRecord.recorded.append (worldStep D c.state a).2
    have hes := promises_next D c a h.promises ha
    refine knowledge_step D (K := fun _ p => Knows D ((queue D).next c a).events p)
      (fun _ => trivial) (fun p hp => hp) (fun p hp => h.spawned ha hp) ?_
      (fun p hp => (h.procs p hp).append _)
    intro pid inp p _ _ hp
    exact knows_step inp hes hbefore hp
  started id path attempt call he := by
    rcases List.mem_append.mp he with hold | hnew
    · obtain ⟨args, settings, hparked, hauth⟩ := h.started id path attempt call hold
      exact ⟨args, settings, parkedCall_append hparked _, hauth⟩
    · obtain ⟨pid, inp, j, target, params, parent, -, hp, rfl, rfl, -, hcall⟩ :=
        worldStep_started D hnew
      obtain ⟨args, settings, hparked, hauth⟩ :=
        runCall_authorised (h.procs _ (List.mem_of_getElem? hp)) hcall
      exact ⟨args, settings, parkedCall_append hparked _, hauth⟩
  minted id call he := by
    rcases List.mem_append.mp he with hold | hnew
    · obtain ⟨args, settings, hparked, hauth⟩ := h.minted id call hold
      exact ⟨args, settings, parkedCall_append hparked _, hauth⟩
    · obtain ⟨mint, approval, hp, rfl⟩ := worldStep_minted hnew
      obtain ⟨args, settings, hparked, hauth⟩ := mint_authorised (h.procs _ hp)
      exact ⟨args, settings, parkedCall_append hparked _, hauth⟩

theorem faithful_begin : Faithful D (queue D).begin_ where
  onRecord := onRecord_begin D
  promises _ _ _ hp := by cases hp
  procs _ hp := by cases hp
  started _ _ _ _ he := by cases he
  minted _ _ he := by cases he

/-- Every call that is started for a request is the one it was parked with: the same tenant and
connector, the same target with the settings it had, and the same op and params, or the op
and params of the composite it is a step of. A mint is for the same tenant, op, target and
params. -/
theorem runs_only_the_parked_call (acts : List Act) (h : ∀ a ∈ acts, a.Promised D) :
    (∀ id path attempt call, .started id path attempt call ∈ (history D acts).events →
      ∃ args settings, parkedCall id (history D acts).events = some (args, settings) ∧
        Authorised D args settings path call) ∧
    (∀ id call, .minted id call ∈ (history D acts).events →
      ∃ args settings, parkedCall id (history D acts).events = some (args, settings) ∧
        AuthorisedMint D args call) := by
  have hinv : Faithful D (history D acts) :=
    (queue D).run_induct_of_forall (faithful_next D) (faithful_begin D) h
  exact ⟨hinv.started, hinv.minted⟩

/-- A call parked on a target, approved by a second person and run by the operator's resume. -/
def approvedRun (call : CreateArgs) : List Act :=
  [.addTarget ⟨0, false, smallSettings "vc-1"⟩, .create call false none, smallApprove] ++
    List.replicate 6 (.advance 0 smallInp)

/-- The parked call of a person is the one that runs. -/
theorem runs_only_the_parked_call_resume :
    (∀ a ∈ approvedRun smallCall, a.Promised smallDeployment) ∧
    ∃ args settings,
      parkedCall 0 (history smallDeployment (approvedRun smallCall)).events =
        some (args, settings) ∧
      Authorised smallDeployment args settings .operatorResume
        ⟨0, "vmware-1", "vm.power.reset", some (0, smallSettings "vc-1"),
          [("vm", .str "vm-7")]⟩ := by
  have hpromised : ∀ a ∈ approvedRun smallCall, a.Promised smallDeployment := by
    intro a ha
    simp only [approvedRun, List.mem_append, List.mem_cons, List.not_mem_nil, or_false,
      List.mem_replicate] at ha
    rcases ha with (rfl | rfl | rfl) | ⟨-, rfl⟩
    · trivial
    · exact ⟨rfl, fun _ => rfl⟩
    · trivial
    · trivial
  refine ⟨hpromised, ?_⟩
  refine (runs_only_the_parked_call smallDeployment (approvedRun smallCall) hpromised).1 0
    .operatorResume 0 _ ?_
  exact List.mem_of_getElem? (i := 2) rfl

/-- A step of a composite. -/
def compositeStep : CreateArgs :=
  { smallCall with resumeParent := some ⟨"vm.provision", some [("name", .str "web")], none, false⟩ }

/-- The call started for a step of a composite is the composite's. -/
theorem composite_step_runs_parent :
    ¬∀ (D : Deployment) (acts : List Act), (∀ a ∈ acts, a.Promised D) →
      ∀ id path attempt call, .started id path attempt call ∈ (history D acts).events →
        ∃ args settings, parkedCall id (history D acts).events = some (args, settings) ∧
          call.tenantId = args.operator.tenantId ∧ call.connectorId = args.connectorId ∧
          call.opId = args.opId ∧ SameTarget D args settings path call.target ∧
          Fits D args call.params := by
  intro h
  obtain ⟨args, settings, hparked, -, -, hop, -⟩ :=
    h smallDeployment (approvedRun compositeStep) (by
      intro a ha
      simp only [approvedRun, List.mem_append, List.mem_cons, List.not_mem_nil, or_false,
        List.mem_replicate] at ha
      rcases ha with (rfl | rfl | rfl) | ⟨-, rfl⟩
      · trivial
      · exact ⟨rfl, fun hkey => by cases hkey⟩
      · trivial
      · trivial) 0 .operatorResume 0
      ⟨0, "vmware-1", "vm.provision", some (0, smallSettings "vc-1"), [("name", .str "web")]⟩
      (List.mem_of_getElem? (i := 2) rfl)
  have hargs : args.opId = "vm.power.reset" := by
    cases hparked
    rfl
  rw [hargs] at hop
  exact absurd hop (by decide)

end Meho.Approval
