import Meho.Scheduler.Loop
import Meho.Lib.Handoff
import Mathlib.Data.Int.Order.Basic

/- Every instant of a trigger is fired at most once.

Nothing but a fire moves a trigger's `next_fire_at`, and a fire moves it forward or
makes the trigger one that is never due again. So the columns are beyond what was
taken, in every interleaving of ticks and cancellations, whatever the clocks of the
replicas say. -/
namespace Meho.Scheduler
open Meho.Lib

/-- A trigger is due at its next fire while it is active. -/
def triggerAgenda : Agenda ScheduledTrigger Time :=
  ⟨(·.id), fun row => if row.status = .active then row.nextFireAt else none⟩

/-- A statement that makes no trigger due. -/
def Quiet (db db' : TriggerDb) : Prop := triggerAgenda.Moves (fun _ _ => False) db db'

/-! ## Statements -/

theorem quiet_update {db : TriggerDb} {triggerId : Nat} {f : ScheduledTrigger → ScheduledTrigger}
    (hid : ∀ row, (f row).id = row.id)
    (hdue : ∀ row t, triggerAgenda.due (f row) = some t → triggerAgenda.due row = some t) :
    Quiet db (updateTrigger db triggerId f) := by
  refine .of_map ?_ ?_
  · intro row
    split
    · exact hid row
    · rfl
  · intro row _ t ht
    split at ht
    · exact .inl (hdue row t ht)
    · exact .inl ht

theorem recordSkip_quiet (db : TriggerDb) (claimed : ScheduledTrigger) :
    Quiet db (recordSkip db claimed) := by
  refine quiet_update ?_ ?_
  · intro row
    split <;> rfl
  · intro row t ht
    split at ht
    · rename_i hactive
      have hdue : triggerAgenda.due row = row.nextFireAt := if_pos hactive
      rw [hdue]
      by_cases hcap : parkAfterConsecutiveSkips ≤ claimed.skipCount + 1
      · rw [if_pos hcap] at ht
        cases ht
      · rw [if_neg hcap] at ht
        exact ht
    · exact ht

theorem parkTrigger_quiet (db : TriggerDb) (triggerId : Nat) : Quiet db (parkTrigger db triggerId) :=
  quiet_update (fun _ => rfl) fun _ _ ht => by cases ht

theorem cancelTrigger_quiet (db : TriggerDb) (triggerId : Nat) :
    Quiet db (cancelTrigger db triggerId) := by
  refine quiet_update ?_ ?_
  · intro row
    split <;> rfl
  · intro row t ht
    split at ht
    · cases ht
    · exact ht

theorem beforeFire_quiet (db : TriggerDb) (row : ScheduledTrigger) : Quiet db (beforeFire db row) := by
  unfold beforeFire
  split
  · exact quiet_update (fun _ => rfl) fun _ _ ht => ht
  · exact .refl _ _ _

/-- A row that a tick holds was due. -/
def ScheduledTrigger.DueBy (row : ScheduledTrigger) (now : Time) : Prop :=
  ∃ t, row.nextFireAt = some t ∧ t ≤ now

theorem claimDueTriggers_due {db : TriggerDb} {now : Time} {locked : List Nat}
    {row : ScheduledTrigger} (h : row ∈ claimDueTriggers db now locked) : row.DueBy now := by
  unfold claimDueTriggers at h
  have hmem := List.mem_of_mem_take h
  rw [List.mem_mergeSort, List.mem_filter, Bool.and_eq_true] at hmem
  have hdue := hmem.2.1
  unfold ScheduledTrigger.isDue at hdue
  rw [Bool.and_eq_true] at hdue
  cases hnext : row.nextFireAt with
  | none =>
    rw [hnext] at hdue
    cases hdue.2
  | some t =>
    rw [hnext] at hdue
    exact ⟨t, hnext, of_decide_eq_true hdue.2⟩

section Fire
variable {nextFireAfter : NextFireAfter} {db db' : TriggerDb} {claimed : ScheduledTrigger}
  {now t : Time}

theorem matchesClaim_due {row : ScheduledTrigger} (ht : claimed.nextFireAt = some t)
    (h : claimed.matchesClaim row = true) :
    triggerAgenda.key row = claimed.id ∧ triggerAgenda.due row = some t := by
  unfold ScheduledTrigger.matchesClaim at h
  simp only [Bool.and_eq_true, decide_eq_true_eq] at h
  exact ⟨h.1.1, (if_pos h.1.2).trans (h.2.trans ht)⟩

/-- A fire is a conditional write, after which the row is due later or never. -/
theorem fireRow_ok (hcron : nextFireAfter.Strict)
    (h : fireRow nextFireAfter db claimed now = .ok (some db')) :
    ∃ f : ScheduledTrigger → ScheduledTrigger, (∀ row, (f row).id = row.id) ∧
      (∀ row u, triggerAgenda.due (f row) = some u → now < u) ∧
      Agenda.cas claimed.matchesClaim f db = some db' := by
  unfold fireRow at h
  split at h
  · refine ⟨ScheduledTrigger.markedFired now, fun _ => rfl, ?_, Except.ok.inj h⟩
    intro row u hu
    cases hu
  · unfold advanceCronTrigger at h
    split at h
    · cases h
    · rename_i expr _
      cases hnext : nextFireAfter expr now claimed.timezone with
      | error e =>
        rw [hnext] at h
        cases h
      | ok next =>
        rw [hnext] at h
        refine ⟨ScheduledTrigger.advanced next now, fun _ => rfl, ?_, Except.ok.inj h⟩
        intro row u hu
        unfold triggerAgenda ScheduledTrigger.advanced at hu
        dsimp only at hu
        split at hu
        · rw [← Option.some.inj hu]
          exact hcron _ _ _ _ hnext
        · cases hu

end Fire

/-! ## What a step can do -/

/-- The rows that a tick holds, and the clock it read. -/
def TickStage.DueRows : TickStage → Prop
  | .claimed now rows => ∀ row ∈ rows, row.DueBy now
  | .prepared now row rows => row.DueBy now ∧ ∀ row ∈ rows, row.DueBy now
  | .fired now _ _ rows => ∀ row ∈ rows, row.DueBy now
  | _ => True

/-- What a tick has taken and not dispatched yet. -/
def TickStage.queue : TickStage → List (Nat × Time)
  | .fired _ triggerId instant _ => [(triggerId, instant)]
  | _ => []

/-- Every effect of an action, with its guards. -/
inductive TriggerMove (nextFireAfter : NextFireAfter) (s : Schedulers) :
    Schedulers → List TriggerEvent → Prop where
  | write (db : TriggerDb) (hdb : Quiet s.db db) :
    TriggerMove nextFireAfter s { s with db := db } []
  | restage (p : Nat) (stage : TickStage) (db : TriggerDb) (hdb : Quiet s.db db)
      (hempty : stage.queue = []) (hrows : (s.replicas p).DueRows → stage.DueRows) :
    TriggerMove nextFireAfter s ({ s with db := db }.setStage p stage) []
  | take (p : Nat) (now : Time) (row : ScheduledTrigger) (rows : List ScheduledTrigger)
      (db : TriggerDb) (hstage : s.replicas p = .prepared now row rows)
      (hfire : fireRow nextFireAfter (beforeFire s.db row) row now = .ok (some db)) :
    TriggerMove nextFireAfter s
      ({ s with db := db }.setStage p (.fired now row.id (row.nextFireAt.getD now) rows))
      [.taken row.id (row.nextFireAt.getD now)]
  | dispatch (p : Nat) (now : Time) (triggerId : Nat) (instant : Time)
      (rows : List ScheduledTrigger) (hstage : s.replicas p = .fired now triggerId instant rows) :
    TriggerMove nextFireAfter s (s.setStage p (.claimed now rows)) [.dispatched triggerId instant]

theorem triggerStep_move (nextFireAfter : NextFireAfter) (s : Schedulers) (a : TriggerAct) :
    TriggerMove nextFireAfter s (triggerStep nextFireAfter s a).1
      (triggerStep nextFireAfter s a).2 := by
  have hsame : Quiet s.db s.db := .refl _ _ _
  cases a with
  | tick p gotLock now =>
    simp only [triggerStep]
    split
    · cases gotLock with
      | true => exact .restage p (.started now) s.db hsame rfl fun _ => trivial
      | false => exact .write s.db hsame
    · exact .write s.db hsame
  | claim p locked =>
    simp only [triggerStep]
    split
    · exact .restage p _ s.db hsame rfl fun _ row hrow => claimDueTriggers_due hrow
    · exact .write s.db hsame
  | prepare p found =>
    simp only [triggerStep]
    split
    · exact .restage p .idle s.db hsame rfl fun _ => trivial
    · rename_i now row rows hstage
      have htail : (s.replicas p).DueRows → ∀ r ∈ rows, r.DueBy now := by
        rw [hstage]
        exact fun h r hr => h r (List.mem_cons_of_mem _ hr)
      split
      · exact .restage p (.claimed now rows) _ (parkTrigger_quiet s.db row.id) rfl htail
      · split
        · refine .restage p (.prepared now row rows) s.db hsame rfl fun h => ⟨?_, htail h⟩
          rw [hstage] at h
          exact h row List.mem_cons_self
        · exact .restage p (.claimed now rows) _ (recordSkip_quiet s.db row) rfl htail
    · exact .write s.db hsame
  | fire p =>
    simp only [triggerStep, tickFire]
    split
    · rename_i now row rows hstage
      have htail : (s.replicas p).DueRows → ∀ r ∈ rows, r.DueBy now := by
        rw [hstage]
        exact fun h => h.2
      split
      · refine .restage p (.claimed now rows) _ ?_ rfl htail
        -- a trigger that cannot be placed again is parked, and fires nothing
        exact Agenda.Moves.trans (beforeFire_quiet s.db row) (parkTrigger_quiet _ row.id)
      · exact .restage p (.claimed now rows) s.db hsame rfl htail
      · rename_i db hfire
        -- the only statement that moves the next fire time
        exact .take p now row rows db hstage hfire
    · exact .write s.db hsame
  | dispatch p =>
    simp only [triggerStep]
    split
    · rename_i hstage
      exact .dispatch p _ _ _ _ hstage
    · exact .write s.db hsame
  | skipRow p =>
    simp only [triggerStep]
    split
    · rename_i now row rows hstage
      refine .restage p (.claimed now rows) s.db hsame rfl fun h r hr => ?_
      rw [hstage] at h
      exact h r (List.mem_cons_of_mem _ hr)
    · rename_i now row rows hstage
      refine .restage p (.claimed now rows) s.db hsame rfl fun h => ?_
      rw [hstage] at h
      exact h.2
    · rename_i now triggerId instant rows hstage
      refine .restage p (.claimed now rows) s.db hsame rfl fun h => ?_
      rw [hstage] at h
      exact h
    · exact .write s.db hsame
  | abort p => exact .restage p .idle s.db hsame rfl fun _ => trivial
  | cancel triggerId => exact .write _ (cancelTrigger_quiet s.db triggerId)
  | delete triggerId => exact .write _ (.of_filter _)

/-! ## Runs -/

def TriggerEvent.taken? : TriggerEvent → Option (Nat × Time)
  | .taken triggerId instant => some (triggerId, instant)
  | _ => none

def TriggerEvent.dispatched? : TriggerEvent → Option (Nat × Time)
  | .dispatched triggerId instant => some (triggerId, instant)
  | _ => none

/-- The instants as items that a tick takes and dispatches. -/
def handoff (c : Config Schedulers TriggerEvent) : Handoff (Nat × Time) :=
  ⟨c.events.filterMap TriggerEvent.taken?, c.events.filterMap TriggerEvent.dispatched?,
    fun p => (c.state.replicas p).queue⟩

/-- Everything that was taken is behind the columns, and is dispatched at most once. -/
structure Once (c : Config Schedulers TriggerEvent) : Prop where
  ids : (c.state.db.map (·.id)).Nodup
  due : ∀ p, (c.state.replicas p).DueRows
  sound : (handoff c).Sound
  ahead : triggerAgenda.Ahead c.state.db (handoff c).taken

section Runs
variable {nextFireAfter : NextFireAfter} {s s' : Schedulers} {events es : List TriggerEvent}

theorem queue_setStage (s : Schedulers) (p : Nat) (stage : TickStage) :
    (fun q => ((s.setStage p stage).replicas q).queue) =
      Function.update (fun q => (s.replicas q).queue) p stage.queue := by
  funext q
  by_cases hq : q = p
  · subst hq
    simp [Schedulers.setStage]
  · simp [Schedulers.setStage, Function.update_of_ne hq]

theorem due_setStage {p : Nat} {stage : TickStage} (h : ∀ q, (s.replicas q).DueRows)
    (hp : stage.DueRows) : ∀ q, ((s.setStage p stage).replicas q).DueRows :=
  (Function.forall_update_iff s.replicas fun _ st => TickStage.DueRows st).mpr
    ⟨hp, fun q _ => h q⟩

theorem Once.take (hcron : nextFireAfter.Strict) (h : Once ⟨s, events⟩) {p : Nat} {now : Time}
    {row : ScheduledTrigger} {rows : List ScheduledTrigger} {db : TriggerDb}
    (hstage : s.replicas p = .prepared now row rows)
    (hfire : fireRow nextFireAfter (beforeFire s.db row) row now = .ok (some db)) :
    Once ⟨{ s with db := db }.setStage p (.fired now row.id (row.nextFireAt.getD now) rows),
      events ++ [.taken row.id (row.nextFireAt.getD now)]⟩ := by
  have hdue := h.due p
  dsimp only at hdue
  rw [hstage] at hdue
  obtain ⟨⟨instant, hinstant, hle⟩, hrows⟩ := hdue
  have hget : row.nextFireAt.getD now = instant := by rw [hinstant]; rfl
  rw [hget]
  have hquiet := beforeFire_quiet s.db row
  have hids : ((beforeFire s.db row).map (·.id)).Nodup := hquiet.keys.nodup h.ids
  obtain ⟨f, hid, hlater, hcas⟩ := fireRow_ok hcron hfire
  -- the next fire time lies behind the one that is taken
  have hf : ∀ r u, triggerAgenda.due (f r) = some u → instant < u := fun r u hu =>
    lt_of_le_of_lt hle (hlater r u hu)
  obtain ⟨hnew, hahead⟩ := (h.ahead.moves hquiet nofun).cas (k := row.id) (t := instant) hids hid
    (fun _ => matchesClaim_due hinstant) hf hcas
  obtain ⟨-, hkeys, -⟩ := Agenda.cas_moves (A := triggerAgenda) (k := row.id) (t := instant) hids
    hid (fun _ => matchesClaim_due hinstant) hf hcas
  -- a prepared replica has nothing in hand yet
  have hempty : (handoff ⟨s, events⟩).queue p = [] := by
    show (s.replicas p).queue = []
    rw [hstage]
    rfl
  have htake : handoff ⟨{ s with db := db }.setStage p (.fired now row.id instant rows),
      events ++ [.taken row.id instant]⟩ = (handoff ⟨s, events⟩).take p (row.id, instant) := by
    unfold Handoff.take
    rw [hempty]
    refine congr (congrArg₂ Handoff.mk ?_ ?_) ?_
    · rw [List.filterMap_append]
      rfl
    · rw [List.filterMap_append]
      exact List.append_nil _
    · exact queue_setStage { s with db := db } p _
  refine ⟨hkeys.nodup hids, due_setStage h.due hrows, ?_, ?_⟩
  · rw [htake]
    exact h.sound.take hnew
  · rw [htake]
    exact hahead

theorem Once.move (hcron : nextFireAfter.Strict) (h : Once ⟨s, events⟩)
    (hmove : TriggerMove nextFireAfter s s' es) : Once ⟨s', events ++ es⟩ := by
  cases hmove with
  | write db hdb =>
    rw [List.append_nil]
    exact ⟨hdb.keys.nodup h.ids, h.due, h.sound, h.ahead.moves hdb nofun⟩
  | restage p stage db hdb hempty hrows =>
    rw [List.append_nil]
    refine ⟨hdb.keys.nodup h.ids, due_setStage h.due (hrows (h.due p)), ?_, h.ahead.moves hdb nofun⟩
    have hstage : handoff ⟨{ s with db := db }.setStage p stage, events⟩ =
        (handoff ⟨s, events⟩).shrink p [] := by
      rw [← hempty]
      exact congrArg (Handoff.mk _ _) (queue_setStage { s with db := db } p stage)
    rw [hstage]
    exact h.sound.shrink (List.nil_sublist _)
  | take p now row rows db hstage hfire => exact h.take hcron hstage hfire
  | dispatch p now triggerId instant rows hstage =>
    have hdue := h.due p
    dsimp only at hdue
    rw [hstage] at hdue
    have huse : handoff ⟨s.setStage p (.claimed now rows),
        events ++ [.dispatched triggerId instant]⟩ =
        (handoff ⟨s, events⟩).use p (triggerId, instant) [] := by
      refine congr (congrArg₂ Handoff.mk ?_ ?_) ?_
      · rw [List.filterMap_append]
        exact List.append_nil _
      · rw [List.filterMap_append]
        rfl
      · exact queue_setStage s p _
    refine ⟨h.ids, due_setStage h.due hdue, ?_, ?_⟩
    · rw [huse]
      refine h.sound.use ?_
      show (s.replicas p).queue = _
      rw [hstage]
      rfl
    · rw [huse]
      exact h.ahead

/-- **No instant of a trigger is dispatched twice**, in any interleaving of ticks. -/
theorem dispatched_once (hcron : nextFireAfter.Strict) {db : TriggerDb}
    (hids : (db.map (·.id)).Nodup) (acts : List TriggerAct) :
    (((triggerMachine nextFireAfter db).after acts).events.filterMap
      TriggerEvent.dispatched?).Nodup := by
  have hstart : Once (triggerMachine nextFireAfter db).begin_ :=
    ⟨hids, fun _ => trivial, Handoff.sound_empty, fun _ _ _ _ _ hmem => absurd hmem List.not_mem_nil⟩
  have hrun : Once ((triggerMachine nextFireAfter db).after acts) := by
    refine (triggerMachine nextFireAfter db).run_induct ?_ hstart acts
    intro c a hc
    exact hc.move hcron (triggerStep_move nextFireAfter c.state a)
  exact hrun.sound.used_once

end Runs

end Meho.Scheduler
