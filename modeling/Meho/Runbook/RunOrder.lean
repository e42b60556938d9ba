import Mathlib.Data.List.Nodup
import Meho.Runbook.Runs

/- The order of a run's steps.

A step's state only moves forward: pending, in progress, then verified or failed
(`StepState.Le`). `RunDb.Later` says that the rows of a run have moved forward and
that a run that has ended is as it was. What a session has loaded is behind what
is committed (`Behind`), so a commit that finds the judged step in progress writes
over the states it takes the rows to have. From there one commit keeps the order
(`NextStage.kept_write`), and so does every run whose commits are in turn
(`run_in_order`). -/
namespace Meho.Runbook
open Meho.Lib

/-! ## States in order -/

/-- The states a step can come to from another. -/
def StepState.Le (s t : StepState) : Prop :=
  s = t ∨ s = .pending ∨ (s = .inProgress ∧ t ≠ .pending)

theorem StepState.Le.refl (s : StepState) : s.Le s := .inl rfl

theorem StepState.Le.trans {s t u : StepState} (h : s.Le t) (h' : t.Le u) : s.Le u := by
  cases s <;> cases t <;> cases u <;> simp_all [StepState.Le]

/-- Verified steps, then at most one that is in progress or failed, then pending steps. -/
def StepOrder (states : List StepState) : Prop :=
  ∃ m current n, states = List.replicate m .verified ++ current ++ List.replicate n .pending ∧
    current.length ≤ 1 ∧ ∀ s ∈ current, s = .inProgress ∨ s = .failed

/-- The same by the first state. -/
def Blocks : List StepState → Prop
  | [] => True
  | .verified :: states => Blocks states
  | _ :: states => ∀ s ∈ states, s = .pending

theorem Blocks.stepOrder {states : List StepState} (h : Blocks states) : StepOrder states := by
  induction states with
  | nil => exact ⟨0, [], 0, rfl, by decide, nofun⟩
  | cons s states ih =>
    cases s with
    | verified =>
      obtain ⟨m, current, n, rfl, hlen, hcurrent⟩ := ih h
      exact ⟨m + 1, current, n, by simp [List.replicate_succ], hlen, hcurrent⟩
    | pending =>
      have hrest : states = List.replicate states.length .pending := List.eq_replicate_of_mem h
      refine ⟨0, [], states.length + 1, ?_, by decide, nofun⟩
      rw [List.replicate_succ, ← hrest]
      rfl
    | inProgress =>
      have hrest : states = List.replicate states.length .pending := List.eq_replicate_of_mem h
      refine ⟨0, [.inProgress], states.length, ?_, by decide, by simp⟩
      rw [← hrest]
      rfl
    | failed =>
      have hrest : states = List.replicate states.length .pending := List.eq_replicate_of_mem h
      refine ⟨0, [.failed], states.length, ?_, by decide, by simp⟩
      rw [← hrest]
      rfl

/-- In front of a step in progress all are verified, behind it all are pending. -/
theorem Blocks.around {xs ys : List StepState} (h : Blocks (xs ++ .inProgress :: ys)) :
    (∀ s ∈ xs, s = .verified) ∧ ∀ s ∈ ys, s = .pending := by
  induction xs with
  | nil => exact ⟨nofun, h⟩
  | cons x xs ih =>
    have hpending : x ≠ .verified → False := by
      intro hx
      have hall : ∀ s ∈ xs ++ .inProgress :: ys, s = .pending := by
        cases x <;> first | exact h | exact absurd rfl hx
      have hwrong := hall .inProgress (List.mem_append_right _ List.mem_cons_self)
      cases hwrong
    have hx : x = .verified := by
      by_contra hx
      exact hpending hx
    subst hx
    obtain ⟨hxs, hys⟩ := ih h
    refine ⟨?_, hys⟩
    intro s hs
    rcases List.mem_cons.mp hs with rfl | hs
    · rfl
    · exact hxs s hs

/-- Verified steps may be put in front. -/
theorem Blocks.verified_append {xs ys : List StepState} (hxs : ∀ s ∈ xs, s = .verified)
    (hys : Blocks ys) : Blocks (xs ++ ys) := by
  induction xs with
  | nil => exact hys
  | cons x xs ih =>
    obtain rfl := hxs x List.mem_cons_self
    exact ih fun s hs => hxs s (List.mem_cons_of_mem _ hs)

/-! ## Rows that move forward -/

/-- The row is of the same step, at the same state or a later one. -/
def StepRow.Later (r r' : StepRow) : Prop := r'.stepId = r.stepId ∧ r.state.Le r'.state

/-- A later state of the run's rows. -/
structure RunDb.Later (db db' : RunDb) : Prop where
  steps : List.Forall₂ StepRow.Later db.steps db'.steps
  ended : db.run.state.isTerminal = true → db'.run.state = db.run.state

theorem StepRow.Later.refl (r : StepRow) : r.Later r := ⟨rfl, StepState.Le.refl _⟩

theorem StepRow.Later.trans {r s t : StepRow} (h : r.Later s) (h' : s.Later t) : r.Later t :=
  ⟨h'.1.trans h.1, h.2.trans h'.2⟩

theorem forall₂_later_refl (steps : List StepRow) : List.Forall₂ StepRow.Later steps steps :=
  List.forall₂_same.mpr fun r _ => StepRow.Later.refl r

theorem RunDb.Later.refl (db : RunDb) : db.Later db := ⟨forall₂_later_refl db.steps, fun _ => rfl⟩

theorem RunDb.Later.trans {a b c : RunDb} (h : a.Later b) (h' : b.Later c) : a.Later c where
  steps := by
    have hall := h.steps
    have hall' := h'.steps
    generalize a.steps = xs at hall
    generalize b.steps = ys at hall hall'
    generalize c.steps = zs at hall'
    induction hall generalizing zs with
    | nil => exact hall'
    | cons hx _ ih =>
      cases hall' with
      | cons hy hrest => exact .cons (hx.trans hy) (ih _ hrest)
  ended hterminal := by
    have hb := h.ended hterminal
    rw [h'.ended (by rw [hb]; exact hterminal), hb]

theorem forall₂_later_ids {xs ys : List StepRow} (h : List.Forall₂ StepRow.Later xs ys) :
    ys.map (·.stepId) = xs.map (·.stepId) := by
  induction h with
  | nil => rfl
  | cons hr _ ih => rw [List.map_cons, List.map_cons, ih, hr.1]

/-- What a session loaded is not ahead of what is committed. -/
def Behind (rows : List StepRow) (steps : List StepRow) : Prop :=
  ∀ r ∈ rows, ∀ r' ∈ steps, r'.stepId = r.stepId → r.state.Le r'.state

variable {rows : List StepRow}

theorem Behind.later {xs ys : List StepRow} (h : Behind rows xs)
    (hlater : List.Forall₂ StepRow.Later xs ys) : Behind rows ys := by
  induction hlater with
  | nil => exact fun r _ r' hr' => nomatch hr'
  | cons hxy _ ih =>
    have hrest : Behind rows _ := ih fun r hr r' hr' => h r hr r' (List.mem_cons_of_mem _ hr')
    intro r hr r' hr' hid
    rcases List.mem_cons.mp hr' with rfl | hr'
    · have hx := h r hr _ List.mem_cons_self (hxy.1.symm.trans hid)
      exact hx.trans hxy.2
    · exact hrest r hr r' hr' hid

theorem mem_of_mem_loadStepStates {order : List String} {steps : List StepRow} {r : StepRow}
    (h : r ∈ loadStepStates order steps) : r ∈ steps := by
  unfold loadStepStates at h
  split at h
  · obtain ⟨id, -, hfind⟩ := List.mem_filterMap.mp h
    exact List.mem_of_find?_eq_some hfind
  · exact h

theorem behind_load {steps : List StepRow} (hnodup : (steps.map (·.stepId)).Nodup)
    (order : List String) : Behind (loadStepStates order steps) steps := by
  intro r hr r' hr' hid
  have hmem := mem_of_mem_loadStepStates hr
  obtain rfl := List.inj_on_of_nodup_map hnodup hr' hmem hid
  exact StepState.Le.refl _

/-- The update of one step among steps of different ids. -/
theorem updateRow_split {stepId : String} (f : StepRow → StepRow) {before behind : List StepRow}
    {row : StepRow} (hid : row.stepId = stepId) (hbefore : ∀ r ∈ before, r.stepId ≠ stepId)
    (hbehind : ∀ r ∈ behind, r.stepId ≠ stepId) :
    updateRow stepId f (before ++ row :: behind) = before ++ f row :: behind := by
  have hkeep : ∀ rows : List StepRow, (∀ r ∈ rows, r.stepId ≠ stepId) →
      updateRow stepId f rows = rows := by
    intro rows hrows
    unfold updateRow
    calc rows.map (fun row => if row.stepId = stepId then f row else row)
        = rows.map id := List.map_congr_left fun r hr => if_neg (hrows r hr)
      _ = rows := List.map_id rows
  have hsplit : updateRow stepId f (before ++ row :: behind) =
      updateRow stepId f before ++ (if row.stepId = stepId then f row else row) ::
        updateRow stepId f behind := by
    unfold updateRow
    rw [List.map_append, List.map_cons]
  rw [hsplit, hkeep before hbefore, hkeep behind hbehind, if_pos hid]

/-- The rows around the one of an id. -/
structure Around (steps : List StepRow) (stepId : String) (before : List StepRow) (row : StepRow)
    (behind : List StepRow) : Prop where
  split : steps = before ++ row :: behind
  id : row.stepId = stepId
  before_ne : ∀ r ∈ before, r.stepId ≠ stepId
  behind_ne : ∀ r ∈ behind, r.stepId ≠ stepId

theorem exists_around {steps : List StepRow} (hnodup : (steps.map (·.stepId)).Nodup)
    {row : StepRow} (hrow : row ∈ steps) :
    ∃ before behind, Around steps row.stepId before row behind := by
  obtain ⟨before, behind, rfl⟩ := List.append_of_mem hrow
  rw [List.map_append, List.map_cons, List.nodup_middle, List.nodup_cons] at hnodup
  obtain ⟨hunique, -⟩ := hnodup
  rw [List.mem_append, not_or] at hunique
  refine ⟨before, behind, rfl, rfl, ?_, ?_⟩
  · exact fun r hr heq => hunique.1 (heq ▸ List.mem_map_of_mem hr)
  · exact fun r hr heq => hunique.2 (heq ▸ List.mem_map_of_mem hr)

section Around
variable {steps before behind : List StepRow} {stepId : String} {row : StepRow}

section
variable (h : Around steps stepId before row behind)
include h

theorem Around.update (f : StepRow → StepRow) :
    updateRow stepId f steps = before ++ f row :: behind := by
  rw [h.split]
  exact updateRow_split f h.id h.before_ne h.behind_ne

theorem Around.template {tbefore tbehind : List Step} {step : Step}
    (hids : steps.map (·.stepId) = (tbefore ++ step :: tbehind).map (·.id)) (hid : step.id = stepId) :
    behind.map (·.stepId) = tbehind.map (·.id) := by
  have hnot : stepId ∉ before.map (·.stepId) := by
    intro hmem
    obtain ⟨r, hr, heq⟩ := List.mem_map.mp hmem
    exact h.before_ne r hr heq
  have hnot' : stepId ∉ behind.map (·.stepId) := by
    intro hmem
    obtain ⟨r, hr, heq⟩ := List.mem_map.mp hmem
    exact h.behind_ne r hr heq
  rw [h.split, List.map_append, List.map_cons, List.map_append, List.map_cons, h.id, hid] at hids
  exact ((List.append_cons_inj_of_notMem hnot hnot').mp hids).2.2

theorem Around.forall₂ {row' : StepRow} {behind' : List StepRow} (hrow : row.Later row')
    (hbehind : List.Forall₂ StepRow.Later behind behind') :
    List.Forall₂ StepRow.Later steps (before ++ row' :: behind') := by
  rw [h.split]
  exact List.rel_append (forall₂_later_refl before) (.cons hrow hbehind)

end

/-- The row behind is written after the first one was. -/
theorem Around.update_next {nextRow row' : StepRow}
    (h : Around steps stepId before row (nextRow :: behind))
    (hnodup : (steps.map (·.stepId)).Nodup) (f : StepRow → StepRow)
    (hid : row'.stepId = row.stepId) :
    updateRow nextRow.stepId f (before ++ row' :: nextRow :: behind) =
      before ++ row' :: f nextRow :: behind := by
  have hsplit : ∀ x y : StepRow, before ++ x :: y :: behind = (before ++ [x]) ++ y :: behind := by
    simp
  rw [h.split, hsplit, List.map_append, List.map_cons, List.nodup_middle, List.nodup_cons,
    List.mem_append, not_or] at hnodup
  obtain ⟨⟨hbefore, hbehind⟩, -⟩ := hnodup
  rw [hsplit, hsplit]
  refine updateRow_split f rfl ?_ ?_
  · intro r hr heq
    rcases List.mem_append.mp hr with hr | hr
    · exact hbefore (heq ▸ List.mem_map_of_mem (List.mem_append_left _ hr))
    · obtain rfl := List.mem_singleton.mp hr
      have hrow : row.stepId ∈ (before ++ [row]).map (·.stepId) :=
        List.mem_map_of_mem (List.mem_append_right _ List.mem_cons_self)
      rw [← hid, heq] at hrow
      exact hbefore hrow
  · exact fun r hr heq => hbehind (heq ▸ List.mem_map_of_mem hr)

end Around

/-! ## The commit of an outcome -/

theorem written_of_ne {α : Type} [BEq α] [LawfulBEq α] {loaded new : α} (h : loaded ≠ new)
    (committed : α) : written loaded new committed = new := by
  unfold written
  rw [if_neg (by simpa using h)]

theorem rowOf_ok {stepId : String} {row : StepRow} (h : rowOf rows stepId = .ok row) :
    row ∈ rows ∧ row.stepId = stepId := by
  unfold rowOf at h
  split at h
  · rename_i found hfind
    cases h
    exact ⟨List.mem_of_find?_eq_some hfind, by simpa using List.find?_some hfind⟩
  · cases h

/-- A row was loaded when the step was at most in progress. -/
theorem not_ended_of_le_inProgress {s : StepState} (h : s.Le .inProgress) :
    s ≠ .verified ∧ s ≠ .failed := by
  cases s <;> simp_all [StepState.Le]

/-- **A commit in turn keeps the order.** The judged step is in progress, and what was loaded is
behind. -/
theorem applyOutcome_kept {template : AcceptedTemplate} {db db' : RunDb} {run : RunbookRun}
    {stepId : String} {outcome : AdvanceOutcome} {completedAt now : Time}
    (hids : db.steps.map (·.stepId) = template.body.steps.map (·.id))
    (hblocks : Blocks (db.steps.map (·.state))) (hbehind : Behind rows db.steps)
    (hdb : db.run.state = .inProgress) {row : StepRow} (hmem : row ∈ db.steps)
    (hid : row.stepId = stepId) (hrow : row.state = .inProgress)
    (hadvanced : Advanced template.body stepId completedAt outcome)
    (h : applyOutcome db run rows stepId outcome now = .ok db') :
    db.Later db' ∧ Blocks (db'.steps.map (·.state)) ∧
      (db'.run.state = .completed → ∀ r ∈ db'.steps, r.state = .verified) := by
  have hnodup : (db.steps.map (·.stepId)).Nodup := by
    rw [hids]
    exact template.ids_nodup
  obtain ⟨before, behind, haround⟩ := exists_around hnodup hmem
  rw [hid] at haround
  have hstates := hblocks
  rw [haround.split, List.map_append, List.map_cons, hrow] at hstates
  obtain ⟨hverified, hpending⟩ := hstates.around
  unfold applyOutcome at h
  obtain ⟨current, hcurrent, h⟩ := bind_ok h
  obtain ⟨hloaded, hcid⟩ := rowOf_ok hcurrent
  have hle : current.state.Le .inProgress := by
    have hle := hbehind current hloaded row hmem (hid.trans hcid.symm)
    rwa [hrow] at hle
  obtain ⟨hnv, hnf⟩ := not_ended_of_le_inProgress hle
  have hlive : db.run.state.isTerminal ≠ true := by
    rw [hdb]
    decide
  cases hadvanced with
  | failed persisted =>
    cases h
    rw [haround.update]
    simp only [written_of_ne hnf]
    refine ⟨⟨?_, fun hterminal => absurd hterminal hlive⟩, ?_, ?_⟩
    · refine haround.forall₂ ⟨rfl, ?_⟩ (forall₂_later_refl behind)
      rw [hrow]
      exact .inr (.inr ⟨rfl, nofun⟩)
    · rw [List.map_append, List.map_cons]
      exact Blocks.verified_append hverified hpending
    · intro hcompleted
      rw [hdb] at hcompleted
      cases hcompleted
  | completed tbefore step persisted hsteps hstep =>
    cases h
    rw [hsteps] at hids
    have hnil : behind = [] := List.map_eq_nil_iff.mp (haround.template hids hstep)
    subst hnil
    rw [haround.update]
    simp only [written_of_ne hnv]
    refine ⟨⟨?_, fun hterminal => absurd hterminal hlive⟩, ?_, ?_⟩
    · refine haround.forall₂ ⟨rfl, ?_⟩ .nil
      rw [hrow]
      exact .inr (.inr ⟨rfl, nofun⟩)
    · rw [List.map_append, List.map_cons]
      exact Blocks.verified_append hverified trivial
    · intro _ r hr
      rcases List.mem_append.mp hr with hr | hr
      · exact hverified r.state (List.mem_map_of_mem hr)
      · obtain rfl := List.mem_singleton.mp hr
        rfl
  | nextStep tbefore step next tbehind shown persisted hsteps hstep hshown =>
    obtain ⟨loadedNext, hloadedNext, h⟩ := bind_ok h
    cases h
    rw [hsteps] at hids
    obtain ⟨hmemNext, hnextId⟩ := rowOf_ok hloadedNext
    obtain ⟨nextRow, rest, rfl, hnextRow, -⟩ := List.map_eq_cons_iff.mp
      (haround.template hids hstep)
    have hnextRow : nextRow.stepId = next.id := hnextRow
    have hpendingNext : nextRow.state = .pending := hpending _ List.mem_cons_self
    have hnextMem : nextRow ∈ db.steps := by
      rw [haround.split]
      simp
    -- the next step is pending, so what was loaded of it was pending too
    have hloadedPending : loadedNext.state ≠ .inProgress := by
      have hle := hbehind loadedNext hmemNext nextRow hnextMem
        (hnextRow.trans (hshown.symm.trans hnextId.symm))
      rw [hpendingNext] at hle
      intro heq
      rw [heq] at hle
      simp [StepState.Le] at hle
    rw [haround.update, hshown, ← hnextRow]
    simp only [written_of_ne hnv, written_of_ne hloadedPending]
    rw [haround.update_next hnodup _ (by rfl)]
    refine ⟨⟨?_, fun hterminal => absurd hterminal hlive⟩, ?_, ?_⟩
    · refine haround.forall₂ ⟨rfl, ?_⟩ (.cons ⟨rfl, ?_⟩ (forall₂_later_refl rest))
      · rw [hrow]
        exact .inr (.inr ⟨rfl, nofun⟩)
      · rw [hpendingNext]
        exact .inr (.inl rfl)
    · rw [List.map_append, List.map_cons, List.map_cons]
      refine Blocks.verified_append hverified ?_
      exact fun s hs => hpending s (List.mem_cons_of_mem _ hs)
    · intro hcompleted
      rw [hdb] at hcompleted
      cases hcompleted

/-! ## Every statement of every call -/

section Kept
variable (py : Python) (template : AcceptedTemplate)

/-- The step rows a call has loaded for its commit are not ahead. -/
def RunProc.Sound (db : RunDb) : RunProc → Prop
  | .nextStep _ (.write _ _ _ rows) => Behind rows db.steps
  | _ => True

variable {db db' : RunDb}

theorem RunProc.Sound.later (hlater : db.Later db') {p : RunProc} (h : p.Sound db) :
    p.Sound db' := by
  cases p with
  | nextStep call stage =>
    cases stage with
    | write inputs response run rows => exact Behind.later h hlater.steps
    | _ => exact h
  | _ => exact h

/-- Rows in order, of a run that is completed only when all its steps are verified. -/
structure RunDb.InOrder (db : RunDb) : Prop where
  ids : db.steps.map (·.stepId) = template.body.steps.map (·.id)
  blocks : Blocks (db.steps.map (·.state))
  completed : db.run.state = .completed → ∀ r ∈ db.steps, r.state = .verified

/-- What every run of the calls keeps. -/
structure RunKept (w : RunWorld) : Prop where
  order : w.db.InOrder template
  sound : ∀ p ∈ w.procs, p.Sound w.db

/-- **A commit is in turn**: the run is in progress, and the judged step is. Other statements are
always in turn. -/
def InTurn (c : Config RunWorld Empty) : RunAct → Prop
  | .step pid input =>
    match c.state.procs[pid]? with
    | some (.nextStep _ (.write inputs response _ _)) =>
      (∃ outcome, judge py template inputs response input.now = .ok outcome) →
        c.state.db.run.state = .inProgress ∧
          ∃ r ∈ c.state.db.steps, r.stepId = inputs.currentStepId ∧ r.state = .inProgress
    | some (.abort _ (.write _ _)) => c.state.db.run.state = .inProgress
    | _ => True
  | _ => True

/-- What a statement leaves: a call that has loaded rows not ahead, or rows that have moved forward
 in order. -/
def Effect.Kept (db : RunDb) : Effect → Prop
  | .moved proc => proc.Sound db
  | .committed db' _ => db.Later db' ∧ db'.InOrder template
  | .answered _ => True

theorem Effect.kept_ofLoad {α : Type} {x : Except RunError α} {next : α → RunProc}
    (h : ∀ a, (next a).Sound db) : (Effect.ofLoad x next).Kept template db := by
  cases x with
  | ok a => exact h a
  | error e => trivial

theorem NextStage.kept_write (horder : db.InOrder template) {inputs : NextStepInputs}
    {response : Option VerifyResponse} {run : RunbookRun} {rows : List StepRow} (call : NextCall)
    {input : RunInput} (hbehind : Behind rows db.steps)
    (hturn : (∃ outcome, judge py template inputs response input.now = .ok outcome) →
      db.run.state = .inProgress ∧ ∃ r ∈ db.steps, r.stepId = inputs.currentStepId ∧
      r.state = .inProgress) :
    (NextStage.step py template db call input (.write inputs response run rows)).Kept
      template db := by
  simp only [NextStage.step]
  cases hjudge : judge py template inputs response input.now with
  | error e =>
    simp only
    trivial
  | ok outcome =>
    obtain ⟨hlive, row, hmem, hid, hrow⟩ := hturn ⟨outcome, hjudge⟩
    obtain ⟨-, hadvanced⟩ := advance_ok py hjudge
    cases happly : applyOutcome db run rows inputs.currentStepId outcome input.now with
    | error e =>
      simp only [happly]
      trivial
    | ok db' =>
      simp only [happly]
      obtain ⟨hlater, hblocks, hcompleted⟩ := applyOutcome_kept horder.ids horder.blocks hbehind
        hlive hmem hid hrow hadvanced happly
      refine ⟨hlater, ?_, hblocks, hcompleted⟩
      rw [forall₂_later_ids hlater.steps]
      exact horder.ids

theorem RunProc.step_kept {w : RunWorld} (h : RunKept template w) {pid : Nat} {p : RunProc}
    (hp : w.procs[pid]? = some p) {input : RunInput} {events : List Empty}
    (hturn : InTurn py template ⟨w, events⟩ (.step pid input)) :
    (p.step py template w.db input).Kept template w.db := by
  have hsound := h.sound p (List.mem_of_getElem? hp)
  have hnodup : (w.db.steps.map (·.stepId)).Nodup := by
    rw [h.order.ids]
    exact template.ids_nodup
  simp only [InTurn, hp] at hturn
  cases p with
  | nextStep call stage =>
    cases stage with
    | loadRun => exact Effect.kept_ofLoad template fun _ => trivial
    | loadSteps run => exact Effect.kept_ofLoad template fun _ => trivial
    | dispatch inputs => exact Effect.kept_ofLoad template fun _ => trivial
    | reloadRun inputs response => exact Effect.kept_ofLoad template fun _ => trivial
    | reloadSteps inputs response run =>
      simp only [RunProc.step, NextStage.step]
      split
      · trivial
      · split
        · trivial
        -- the rows are read in any order, which the ids of the template put right
        · exact behind_load hnodup input.order
    | write inputs response run rows =>
      exact NextStage.kept_write py template h.order call hsound hturn
  | abort call stage =>
    cases stage with
    | loadRun => exact Effect.kept_ofLoad template fun _ => trivial
    | loadSteps run => trivial
    | write run stepId =>
      -- an abort of a run that is still open: no step changes
      refine ⟨⟨forall₂_later_refl _, ?_⟩, h.order.ids, h.order.blocks, ?_⟩
      · intro hterminal
        rw [hturn] at hterminal
        cases hterminal
      · intro hcompleted
        unfold written at hcompleted
        split at hcompleted
        · exact h.order.completed hcompleted
        · cases hcompleted
  | reassign call stage =>
    cases stage with
    | loadRun => exact Effect.kept_ofLoad template fun _ => trivial
    | write run => exact ⟨⟨forall₂_later_refl _, fun _ => rfl⟩, h.order.ids, h.order.blocks,
        h.order.completed⟩
  | answered answer => trivial

theorem RunKept.act (db : RunDb) {c : Config RunWorld Empty} (h : RunKept template c.state)
    {a : RunAct} (hturn : InTurn py template c a) :
    RunKept template ((runMachine py template db).next c a).state ∧
      c.state.db.Later ((runMachine py template db).next c a).state.db := by
  obtain ⟨w, events⟩ := c
  have hnew : ∀ p : RunProc, p.Sound w.db → RunKept template { w with procs := w.procs ++ [p] } := by
    intro p hsound
    refine ⟨h.order, ?_⟩
    intro q hq
    rcases List.mem_append.mp hq with hq | hq
    · exact h.sound q hq
    · obtain rfl := List.mem_singleton.mp hq
      exact hsound
  -- the other calls know of earlier rows, which stay true of later ones
  have hset : ∀ (pid : Nat) (db' : RunDb) (p : RunProc), w.db.Later db' → db'.InOrder template →
      p.Sound db' → RunKept template ⟨db', w.procs.set pid p⟩ := by
    intro pid db' p hlater horder hsound
    refine ⟨horder, ?_⟩
    intro q hq
    rcases List.mem_or_eq_of_mem_set hq with hq | rfl
    · exact (h.sound q hq).later hlater
    · exact hsound
  cases a with
  | nextStep call | abort call | reassign call => exact ⟨hnew _ trivial, RunDb.Later.refl _⟩
  | step pid input =>
    change RunKept template (runStep py template w (.step pid input)) ∧
      w.db.Later (runStep py template w (.step pid input)).db
    cases hp : w.procs[pid]? with
    | none =>
      simp only [runStep, hp]
      exact ⟨h, RunDb.Later.refl _⟩
    | some p =>
      have hkept := RunProc.step_kept py template h hp hturn
      simp only [runStep, hp]
      generalize p.step py template w.db input = effect at hkept ⊢
      cases effect with
      | moved q => exact ⟨hset pid w.db q (RunDb.Later.refl _) h.order hkept, RunDb.Later.refl _⟩
      | committed db' answer =>
        exact ⟨hset pid db' (.answered answer) hkept.1 hkept.2 trivial, hkept.1⟩
      | answered answer =>
        exact ⟨hset pid w.db (.answered answer) (RunDb.Later.refl _) h.order trivial,
          RunDb.Later.refl _⟩

/-! ## Every run -/

/-- The state of a step. -/
def RunDb.stateOf (db : RunDb) (stepId : String) : Option StepState :=
  (db.steps.find? (·.stepId = stepId)).map (·.state)

theorem RunDb.Later.stateOf (h : db.Later db') {stepId : String} {s : StepState}
    (hs : db.stateOf stepId = some s) : ∃ s', db'.stateOf stepId = some s' ∧ s.Le s' := by
  have hall := h.steps
  unfold RunDb.stateOf at hs ⊢
  generalize db.steps = xs at hall hs
  generalize db'.steps = ys at hall
  induction hall with
  | nil => cases hs
  | @cons x y xs ys hxy _ ih =>
    by_cases hid : x.stepId = stepId
    · have hid' : y.stepId = stepId := hxy.1.trans hid
      rw [List.find?_cons_of_pos (by simpa using hid)] at hs
      rw [List.find?_cons_of_pos (by simpa using hid')]
      cases hs
      exact ⟨y.state, rfl, hxy.2⟩
    · have hid' : y.stepId ≠ stepId := fun heq => hid (hxy.1.symm.trans heq)
      rw [List.find?_cons_of_neg (by simpa using hid)] at hs
      rw [List.find?_cons_of_neg (by simpa using hid')]
      exact ih hs

theorem startDb_inOrder (tenantId : Nat) (operatorSub target : String) (params : Dict)
    (now : Time) : (startDb template tenantId operatorSub target params now).InOrder template := by
  unfold startDb
  cases hsteps : template.body.steps with
  | nil => exact ⟨by simp [startRows, hsteps], trivial, nofun⟩
  | cons first rest =>
    refine ⟨?_, ?_, nofun⟩
    · simp [startRows, hsteps]
    · intro s hs
      simp only [List.map_map, List.mem_map] at hs
      obtain ⟨step, -, rfl⟩ := hs
      rfl

theorem kept_of_inTurn {c : Config RunWorld Empty} (h : RunKept template c.state)
    {acts : List RunAct} (hturn : (runMachine py template db).Along (InTurn py template) c acts) :
    RunKept template ((runMachine py template db).run c acts).state ∧
      c.state.db.Later ((runMachine py template db).run c acts).state.db := by
  let I : Config RunWorld Empty → Prop := fun d =>
    RunKept template d.state ∧ c.state.db.Later d.state.db
  refine (runMachine py template db).along_induct (I := I) ?_ ⟨h, RunDb.Later.refl _⟩ hturn
  intro d a hd ha
  obtain ⟨hkept, hlater⟩ := hd.1.act py template db ha
  exact ⟨hkept, hd.2.trans hlater⟩

theorem RunKept.start (h : db.InOrder template) : RunKept template ⟨db, []⟩ := by
  refine ⟨h, ?_⟩
  intro p hp
  cases hp

theorem RunDb.Later.stays (h : db.Later db') :
    (∀ stepId, db.stateOf stepId = some .verified → db'.stateOf stepId = some .verified) ∧
      (db.run.state.isTerminal = true → db'.run.state = db.run.state) := by
  refine ⟨?_, h.ended⟩
  intro stepId hverified
  obtain ⟨s', hs', hle⟩ := h.stateOf hverified
  rcases hle with rfl | hpending | ⟨hprogress, -⟩
  · exact hs'
  · cases hpending
  · cases hprogress

theorem later_of_inTurn (horder : db.InOrder template) {before later : List RunAct}
    (hturn : (runMachine py template db).Along (InTurn py template) (runMachine py template db).begin_ (before ++ later)) :
    ((runMachine py template db).after before).state.db.Later
      ((runMachine py template db).after (before ++ later)).state.db := by
  obtain ⟨hbefore, hlater⟩ := ((runMachine py template db).along_append _ _ _ _).mp hturn
  have hmid := (kept_of_inTurn py template (RunKept.start template horder) hbefore).1
  have hforward := (kept_of_inTurn py template hmid hlater).2
  unfold Machine.after
  rw [Machine.run_append]
  exact hforward

/-- **The steps of a run keep their order.** In every interleaving of calls whose commits are in
turn: verified steps, then at most one that is in progress or failed, then pending ones; a
completed run has all its steps verified; a verified step stays verified; and a run that is
completed or abandoned stays so. -/
theorem run_in_order (tenantId : Nat) (operatorSub target : String) (params : Dict) (now : Time)
    (db : RunDb) (hdb : db = startDb template tenantId operatorSub target params now)
    (acts : List RunAct)
    (hturn : (runMachine py template db).Along (InTurn py template)
      (runMachine py template db).begin_ acts) :
    StepOrder (((runMachine py template db).after acts).state.db.steps.map (·.state)) ∧
      (((runMachine py template db).after acts).state.db.run.state = .completed →
        ∀ r ∈ ((runMachine py template db).after acts).state.db.steps, r.state = .verified) ∧
      ∀ before later, acts = before ++ later →
        (∀ stepId, ((runMachine py template db).after before).state.db.stateOf stepId =
            some .verified →
          ((runMachine py template db).after acts).state.db.stateOf stepId = some .verified) ∧
        (((runMachine py template db).after before).state.db.run.state.isTerminal = true →
          ((runMachine py template db).after acts).state.db.run.state =
            ((runMachine py template db).after before).state.db.run.state) := by
  have horder : db.InOrder template := by
    rw [hdb]
    exact startDb_inOrder template tenantId operatorSub target params now
  have hkept := (kept_of_inTurn py template (RunKept.start template horder) hturn).1
  refine ⟨hkept.order.blocks.stepOrder, hkept.order.completed, ?_⟩
  intro before later hsplit
  subst hsplit
  exact (later_of_inTurn py template horder hturn).stays

end Kept

/-! ## Two calls on one step -/

def plainPython : Python := ⟨fun _ => "", fun _ _ => false⟩

def smallStep (id : String) : Step := ⟨id, "t", "b", .manual, .confirm "done?"⟩

/-- Two steps that an operator confirms. -/
def smallTemplate : AcceptedTemplate :=
  ⟨⟨"t", "d", none, [smallStep "a", smallStep "b"]⟩, by decide +kernel⟩

def smallStart : RunDb := startDb smallTemplate 1 "op" "host" [] 0

def smallCall (answer : ConfirmAnswer) : RunAct := .nextStep ⟨1, "op", some (.confirm answer)⟩

/-- The next statement of a call. -/
def go (pid : Nat) : RunAct := .step pid ⟨1, ["a", "b"], none⟩

/-- A call of `next_step` up to its commit, with nothing in between. -/
def whole (pid : Nat) : List RunAct := List.replicate 6 (go pid)

/-- Its commit finds step `a` in progress. -/
theorem whole_inTurn : (runMachine plainPython smallTemplate smallStart).Along
    (InTurn plainPython smallTemplate) (runMachine plainPython smallTemplate smallStart).begin_
    (smallCall .yes :: whole 0) := by
  refine ⟨trivial, trivial, trivial, trivial, trivial, trivial, ?_, trivial⟩
  intro _
  refine ⟨rfl, ⟨"a", .inProgress, some 0, none, none⟩, ?_, rfl, rfl⟩
  exact List.mem_cons_self

theorem run_in_order_small :
    StepOrder (((runMachine plainPython smallTemplate smallStart).after
      (smallCall .yes :: whole 0)).state.db.steps.map (·.state)) :=
  (run_in_order plainPython smallTemplate 1 "op" "host" [] 0 smallStart rfl _ whole_inTurn).1

/-- The first phase of two calls on step `a`; then the first one passes its gate, and the second
one fails the same step. -/
def sameStep : List RunAct :=
  [smallCall .yes, smallCall .no] ++ List.replicate 3 (go 0) ++ List.replicate 3 (go 1) ++
    List.replicate 3 (go 0)

theorem verified_step_fails :
    let M := runMachine plainPython smallTemplate smallStart
    (M.after sameStep).state.db.stateOf "a" = some .verified ∧
      (M.after (sameStep ++ List.replicate 3 (go 1))).state.db.stateOf "a" = some .failed := by
  decide +kernel

end Meho.Runbook
