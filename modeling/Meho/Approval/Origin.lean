import Meho.Approval.Guarantees

/- What the tables say of the call a request was parked with.

A request is seen parked once, with its call (`parkedCall`). `Origin` says of a
row, as somebody read it, that it is the row of that call: the columns the park
wrote are the call's, and its params are the call's until a secret in them was
hidden. `onRecord_history`: after every run every row has its origin, and every
custody row holds the parked call. -/
namespace Meho.Approval
open Meho.Lib

variable (D : Deployment)

/-! ## The parked call -/

def Event.parkedCall (id : Nat) : Event → Option (CreateArgs × Option TargetSettings)
  | .parked id' args settings => if id' = id then some (args, settings) else none
  | _ => none

/-- The call a request was parked with, and the settings its target had then. -/
def parkedCall (id : Nat) (es : List Event) : Option (CreateArgs × Option TargetSettings) :=
  es.findSome? (·.parkedCall id)

variable {id : Nat} {es : List Event}

theorem parkedCall_append {p : CreateArgs × Option TargetSettings} (h : parkedCall id es = some p)
    (new : List Event) : parkedCall id (es ++ new) = some p := by
  unfold parkedCall at *
  rw [List.findSome?_append, h]
  rfl

theorem parkedCall_new (h : parkedCall id es = none) (args : CreateArgs)
    (settings : Option TargetSettings) :
    parkedCall id (es ++ [.parked id args settings]) = some (args, settings) := by
  unfold parkedCall at *
  rw [List.findSome?_append, h]
  simp [Event.parkedCall]

theorem parkedCall_mem {p : CreateArgs × Option TargetSettings} (h : parkedCall id es = some p) :
    .parked id p.1 p.2 ∈ es := by
  obtain ⟨e, he, heq⟩ := List.exists_of_findSome?_eq_some h
  cases e with
  | parked id' args settings =>
    simp only [Event.parkedCall] at heq
    split at heq
    · rename_i hid
      cases heq
      exact hid ▸ he
    · cases heq
  | _ => cases heq

/-- The columns a park of `args` writes, on a target with these settings. A credential write
keeps the parent's params off the row. -/
structure ParkedCall.Of (c : ParkedCall) (args : CreateArgs) (settings : Option TargetSettings) :
    Prop where
  tenantId : c.tenantId = args.operator.tenantId
  principalSub : c.principalSub = (args.requester.map (·.sub)).getD args.operator.sub
  opId : c.opId = args.opId
  connectorId : c.connectorId = args.connectorId
  targetId : c.targetId = args.targetId
  paramsHash : c.paramsHash = args.paramsHash
  previewHash : c.previewHash = args.previewHash
  proposedEffect : c.proposedEffect =
    args.proposedEffect.getD (identifierEffect args.opId args.connectorId args.targetId)
  targetHash : c.targetHash = settings.map D.hashing.target
  parent : c.executionHandle = none → c.resumeParent = args.resumeParent
  noParent : c.resumeParent = none ↔ args.resumeParent = none
  stripped : c.executionHandle ≠ none → ∀ p, c.resumeParent = some p → p.params = none

/-- Stored params are the parked ones until a secret in them was hidden. -/
def KeptParams (args : CreateArgs) (stored : Option Params) : Prop :=
  ∀ p, stored = some p → p = args.params ∨ Redaction.holdsHiddenParamValues (.obj p) = true

/-- The row, as somebody read it, is that of the request parked with `args`. -/
structure Origin (es : List Event) (id : Nat) (args : CreateArgs)
    (settings : Option TargetSettings) (r : ApprovalRequest) : Prop where
  parked : parkedCall id es = some (args, settings)
  call : r.parked.Of D args settings
  params : KeptParams args r.params

/-- The tables say of every request what its parked call was. -/
structure Recorded (es : List Event) (s : Store) : Prop where
  rows : ∀ (id : Nat) (r : ApprovalRequest), s.requests[id]? = some r →
    ∃ args settings, Origin D es id args settings r
  custody : ∀ k ∈ s.custody, ∃ args settings, parkedCall k.requestId es = some (args, settings) ∧
    k.payload = ⟨args.params, args.resumeParent⟩

/-- The invariant: a request that is not there was not parked, and the others are on record. -/
structure OnRecord (c : Config World Event) : Prop where
  exclusive : Exclusive c
  unparked : ∀ id : Nat, c.state.store.requests[id]? = none → parkedCall id c.events = none
  recorded : Recorded D c.events c.state.store

variable {D}

variable {args : CreateArgs} {settings : Option TargetSettings} {r : ApprovalRequest}

theorem Origin.append (h : Origin D es id args settings r) (new : List Event) :
    Origin D (es ++ new) id args settings r :=
  { h with parked := parkedCall_append h.parked new }

variable {s : Store}

theorem Recorded.append (h : Recorded D es s) (new : List Event) :
    Recorded D (es ++ new) s where
  rows id r hr := by
    obtain ⟨args, settings, ho⟩ := h.rows id r hr
    exact ⟨args, settings, ho.append new⟩
  custody k hk := by
    obtain ⟨args, settings, hparked, heq⟩ := h.custody k hk
    exact ⟨args, settings, parkedCall_append hparked new, heq⟩

/-! ## What a file keeps of the parked call -/

theorem KeptParams.hide {stored : Option Params} (h : KeptParams args stored) :
    KeptParams args (hideStoredParams stored) := by
  intro p hp
  cases stored with
  | none => cases hp
  | some params =>
    unfold hideStoredParams paramsWithSecretFieldsHidden at hp
    simp only at hp
    split at hp
    · rename_i hidden hfound
      cases hp
      split at hfound
      · rename_i hany
        cases hfound
        exact .inr (Redaction.holdsHiddenFields_of_found _ params hany)
      · cases hfound
    · exact h p hp

theorem FileStep.keptParams {f g : File} {r' : ApprovalRequest} (h : FileStep id f g)
    (hr : f.row = some r) (hr' : g.row = some r') (hk : KeptParams args r.params) :
    KeptParams args r'.params := by
  cases h with
  | queue hq =>
    cases hq with
    | keep _ _ => rw [hr] at hr'; cases hr'; exact hk
    | create _ _ => cases hr
    | close c _ _ =>
      cases hr
      cases hr'
      cases c with
      | approve operator now => exact hk
      | reject operator now => exact hk.hide
      | withdraw reason now => exact hk.hide
      | expire cutoff ttl => exact hk.hide
  | claim now _ _ _ => cases hr; cases hr'; exact hk.hide
  | record result _ _ _ | reclaim _ _ => cases hr; cases hr'; exact hk

theorem FileStep.custody_subset {f g : File} (h : FileStep id f g) (hr : f.row = some r) :
    g.custody ⊆ f.custody := by
  cases h with
  | queue hq =>
    cases hq with
    | keep _ hs => exact hs.subset
    | create _ _ => cases hr
    | close c _ _ =>
      cases c with
      | approve operator now => exact List.Subset.refl _
      | reject operator now => exact fun _ hk => List.mem_of_mem_filter hk
      | withdraw reason now => exact fun _ hk => List.mem_of_mem_filter hk
      | expire cutoff ttl => exact fun _ hk => List.mem_of_mem_filter hk
  | claim now _ _ hc => exact hc.subset
  | record result _ _ _ | reclaim _ _ => exact List.Subset.refl _

theorem insertedRow_origin {s₁ : Store} (hfree : KeyFreed s s₁)
    (hes : parkedCall id es = some (args, callSettings s args)) :
    Origin D es id args (callSettings s args) (insertedRow D s₁ args) := by
  refine ⟨hes, ⟨rfl, ?_, rfl, rfl, rfl, rfl, rfl, rfl, ?_, ?_, ?_, ?_⟩, ?_⟩
  · change (newRequest D s₁ args).principalSub = _
    unfold newRequest
    cases args.requester <;> rfl
  · -- the key's release did not touch the targets
    change s₁.parkTimeTargetHash D.hashing args.operator.tenantId args.targetId = _
    unfold Store.parkTimeTargetHash callSettings Store.resolveTargetById
    rw [hfree.targets]
    cases args.targetId with
    | none => rfl
    | some t =>
      simp only [Option.bind_some, Option.map_map]
      rfl
  · intro hnone
    by_cases hcred : D.classifyOp args.opId = "credential_write"
    · simp [ApprovalRequest.parked, insertedRow, hcred] at hnone
    · simp [ApprovalRequest.parked, insertedRow, newRequest, hcred]
  · by_cases hcred : D.classifyOp args.opId = "credential_write"
    · simp [ApprovalRequest.parked, insertedRow, newRequest, hcred]
    · simp [ApprovalRequest.parked, insertedRow, newRequest, hcred]
  · intro hsome p hparent
    by_cases hcred : D.classifyOp args.opId = "credential_write"
    · simp only [ApprovalRequest.parked, insertedRow, newRequest, hcred, if_true,
        Option.map_eq_some_iff] at hparent
      obtain ⟨q, -, rfl⟩ := hparent
      rfl
    · simp [ApprovalRequest.parked, insertedRow, hcred] at hsome
  · intro p hparams
    by_cases hcred : D.classifyOp args.opId = "credential_write"
    · simp [insertedRow, newRequest, hcred] at hparams
    · simp only [insertedRow, newRequest, hcred, if_false, Option.some.injEq] at hparams
      exact .inl hparams.symm

/-! ## Every action keeps the record -/

theorem procStep_not_parked {inp : Inp} {p : Proc} :
    Event.parked id args settings ∉ (procStep D inp s p).2.2 := by
  intro h
  cases p with
  | _ =>
    simp only [procStep] at h
    repeat' split at h
    all_goals simp at h

section
variable {w : World} {a : Act} (h : .parked id args settings ∈ (worldStep D w a).2)
include h

theorem worldStep_parked_create : ∃ waits fqdn, a = .create args waits fqdn := by
  cases a with
  | create args' waits fqdn =>
    cases hc : createPendingRequest D args' w.store with
    | error e =>
      rw [worldStep_create_error D hc] at h
      cases h
    | ok res =>
      rw [(worldStep_create D waits fqdn hc).2] at h
      split at h
      · cases List.mem_singleton.mp h
        exact ⟨waits, fqdn, rfl⟩
      · cases h
  | advance pid inp =>
    simp only [worldStep] at h
    split at h
    · cases h
    · exact absurd h procStep_not_parked
  | _ =>
    simp only [worldStep] at h
    repeat' split at h
    all_goals simp at h

theorem worldStep_parked : (worldStep D w a).1.store.requests[id]? ≠ none := by
  obtain ⟨waits, fqdn, rfl⟩ := worldStep_parked_create h
  cases hc : createPendingRequest D args w.store with
  | error e =>
    rw [worldStep_create_error D hc] at h
    cases h
  | ok res =>
    obtain ⟨id', s'⟩ := res
    obtain ⟨hstore, hes⟩ := worldStep_create D waits fqdn hc
    rw [hes] at h
    split at h
    · cases List.mem_singleton.mp h
      rw [hstore]
      obtain ⟨s₁, -, ⟨r, hr, -, -, rfl⟩ | ⟨hid, rfl⟩⟩ := createPendingRequest_cases hc
      · rw [hr]; exact Option.some_ne_none r
      · rw [Ne, List.getElem?_eq_none_iff, length_insertRequest, hid]
        exact Nat.not_succ_le_self _
    · cases h

end

variable {c : Config World Event} {a : Act}

theorem OnRecord.unparked_next (h : OnRecord D c)
    (hnone : ((queue D).next c a).state.store.requests[id]? = none) :
    parkedCall id ((queue D).next c a).events = none := by
  have hold : c.state.store.requests[id]? = none := by
    cases hr : c.state.store.requests[id]? with
    | none => rfl
    | some r =>
      obtain ⟨r', hr', -⟩ := (next_file D h.exclusive a id).later hr
      rw [file_row, hnone] at hr'
      cases hr'
  cases hp : parkedCall id ((queue D).next c a).events with
  | none => rfl
  | some p =>
    rcases List.mem_append.mp (parkedCall_mem hp) with hbefore | hnew
    · have hunparked := h.unparked id hold
      unfold parkedCall at hunparked
      rw [List.findSome?_eq_none_iff] at hunparked
      have := hunparked _ hbefore
      simp [Event.parkedCall] at this
    · exact absurd hnone (worldStep_parked hnew)

section
variable (h : OnRecord D c) (hnone : c.state.store.requests[id]? = none)
    (hr : ((queue D).next c a).state.store.requests[id]? = some r)
include h hnone hr

/-- A request that was not there before is the one the action parked. -/
theorem OnRecord.parked_next :
    ∃ args waits fqdn s₁, a = .create args waits fqdn ∧ KeyFreed c.state.store s₁ ∧
      ((queue D).next c a).state.store.file id =
        ⟨some (insertedRow D s₁ args), [], insertedCustody D s₁ args⟩ ∧
      parkedCall id ((queue D).next c a).events =
        some (args, callSettings c.state.store args) := by
  obtain ⟨args, waits, fqdn, s₁, ha, hfree, hfile, hes⟩ :=
    worldStep_opened D h.exclusive.world.files hnone hr
  refine ⟨args, waits, fqdn, s₁, ha, hfree, hfile, ?_⟩
  rw [Machine.next_events]
  change parkedCall id (c.events ++ (worldStep D c.state a).2) = _
  rw [hes]
  exact parkedCall_new (h.unparked id hnone) _ _

theorem OnRecord.opened :
    ∃ args settings, Origin D ((queue D).next c a).events id args settings r ∧
      ∀ k ∈ (((queue D).next c a).state.store.file id).custody,
        k.payload = ⟨args.params, args.resumeParent⟩ := by
  obtain ⟨args, waits, fqdn, s₁, rfl, hfree, hfile, hparked⟩ := h.parked_next hnone hr
  have hrow : some r = some (insertedRow D s₁ args) := hr.symm.trans (congrArg File.row hfile)
  cases hrow
  refine ⟨args, _, insertedRow_origin hfree hparked, ?_⟩
  intro k hk
  rw [hfile] at hk
  change k ∈ insertedCustody D s₁ args at hk
  unfold insertedCustody at hk
  split at hk
  · rw [List.mem_singleton.mp hk]
  · cases hk

end

theorem OnRecord.recorded_next (h : OnRecord D c) :
    Recorded D ((queue D).next c a).events ((queue D).next c a).state.store := by
  have hfile := next_file D h.exclusive a
  refine ⟨?_, ?_⟩
  · intro id r hr
    cases hold : c.state.store.requests[id]? with
    | some r₀ =>
      obtain ⟨r', hr', hlater⟩ := (hfile id).later hold
      rw [file_row, hr] at hr'
      cases hr'
      obtain ⟨args, settings, ho⟩ := h.recorded.rows id r₀ hold
      refine ⟨args, settings, parkedCall_append ho.parked _, ?_,
        (hfile id).keptParams hold hr ho.params⟩
      rw [hlater.parked]
      exact ho.call
    | none =>
      obtain ⟨args, settings, ho, -⟩ := h.opened hold hr
      exact ⟨args, settings, ho⟩
  · intro k hk
    have hmem : k ∈ (((queue D).next c a).state.store.file k.requestId).custody :=
      List.mem_filter.mpr ⟨hk, by simp⟩
    cases hold : c.state.store.requests[k.requestId]? with
    | some r₀ =>
      have hbefore := (hfile k.requestId).custody_subset hold hmem
      exact (h.recorded.append _).custody k (List.mem_of_mem_filter hbefore)
    | none =>
      cases hr : ((queue D).next c a).state.store.requests[k.requestId]? with
      | some r =>
        obtain ⟨args, settings, ho, hpayload⟩ := h.opened hold hr
        exact ⟨args, settings, ho.parked, hpayload k hmem⟩
      | none =>
        -- no row, no custody row
        have hok := (exclusive_next D c a h.exclusive).world.files k.requestId
        rw [(hok.empty hr).2] at hmem
        cases hmem

variable (D)

theorem onRecord_next (c : Config World Event) (a : Act) (h : OnRecord D c) :
    OnRecord D ((queue D).next c a) where
  exclusive := exclusive_next D c a h.exclusive
  unparked _ hnone := h.unparked_next hnone
  recorded := h.recorded_next

theorem onRecord_begin : OnRecord D (queue D).begin_ where
  exclusive := exclusive_begin D
  unparked _ _ := rfl
  recorded := ⟨fun _ _ hr => (by cases hr), fun _ hk => (by cases hk)⟩

/-- After every run every row is the row of the call it was parked with. -/
theorem onRecord_history (acts : List Act) : OnRecord D (history D acts) :=
  (queue D).run_induct (onRecord_next D) (onRecord_begin D) acts

end Meho.Approval
