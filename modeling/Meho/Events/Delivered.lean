import Meho.Events.Drain

/- What the drain of the outbox promises its subscribers.

A pair of an event and a trigger starts at most one run: the run's `work_ref` names the
pair, the run is looked for before each fire, and nobody else fires under the lock. An
event is stamped after every trigger that its delivery found has its run or was refused,
if the delivery passed over no error: `fire_matching_triggers` logs one and goes on, and
the event is stamped all the same (`failed_trigger_is_dropped`). -/
namespace Meho.Events
open Meho.Lib

section Moves
variable (scalarEq : Json → Json → Bool) (grantTenant : Nat → String → Nat)

/-- What one step can do, with what it checked. -/
inductive BusMove (s : EventBus) : EventBus → List BusEvent → Prop where
  | idle : BusMove s s []
  | publish {event : EventOutbox} (hnew : ∀ e ∈ s.outbox, e.eventId ≠ event.eventId)
      (hopen : event.processedAt = none) :
      BusMove s { s with outbox := s.outbox ++ [event] } []
  | triggers (triggers : List EventTrigger) : BusMove s { s with triggers } []
  | otherRun (run : WorkRun) : BusMove s { s with runs := s.runs ++ [run] } []
  | lock {p : Nat} {now : Time} {rows : List EventOutbox} (hrows : ∀ e ∈ rows, e ∈ s.outbox) :
      BusMove s { s with outbox := stampClaim now p rows s.outbox
                         drain := some (p, .batch now rows) } []
  | read {p : Nat} {now : Time} {event : EventOutbox} {rows : List EventOutbox}
      (hstage : s.drain = some (p, .batch now (event :: rows))) :
      BusMove s (s.to p (.delivering now
        ⟨event, matchingEventTriggers scalarEq s.triggers event, s.triggers, false⟩ rows)) []
  | refused {p : Nat} {now : Time} {event : EventOutbox} {t : EventTrigger}
      {queue table : List EventTrigger} {passedOver : Bool} {rows : List EventOutbox}
      (hstage : s.drain = some (p, .delivering now ⟨event, t :: queue, table, passedOver⟩ rows))
      (reason : Refusal) :
      BusMove s (s.to p (.delivering now ⟨event, queue, table, passedOver⟩ rows))
        [.refused event.eventId t.id reason]
  | failed {p : Nat} {now : Time} {event : EventOutbox} {t : EventTrigger}
      {queue table : List EventTrigger} {passedOver : Bool} {rows : List EventOutbox}
      (hstage : s.drain = some (p, .delivering now ⟨event, t :: queue, table, passedOver⟩ rows)) :
      BusMove s (s.to p (.delivering now ⟨event, queue, table, true⟩ rows))
        [.passedOver event.eventId t.id]
  | deduped {p : Nat} {now : Time} {event : EventOutbox} {t : EventTrigger}
      {queue table : List EventTrigger} {passedOver : Bool} {rows : List EventOutbox}
      (hstage : s.drain = some (p, .delivering now ⟨event, t :: queue, table, passedOver⟩ rows))
      (hrun : ⟨t.tenantId, some (eventWorkRef event.eventId t.id)⟩ ∈ s.runs) :
      BusMove s (s.to p (.delivering now ⟨event, queue, table, passedOver⟩ rows)) []
  | fires {p : Nat} {now : Time} {event : EventOutbox} {t : EventTrigger}
      {queue table : List EventTrigger} {passedOver : Bool} {rows : List EventOutbox}
      (hstage : s.drain = some (p, .delivering now ⟨event, t :: queue, table, passedOver⟩ rows))
      (hnone : ⟨t.tenantId, some (eventWorkRef event.eventId t.id)⟩ ∉ s.runs) :
      BusMove s (s.to p (.launching now t ⟨event, queue, table, passedOver⟩ rows)) []
  | started {p : Nat} {now : Time} {t : EventTrigger} {d : Delivery} {rows : List EventOutbox}
      (hstage : s.drain = some (p, .launching now t d rows)) :
      BusMove s { s.to p (.delivering now d rows) with
          runs := s.runs ++ [⟨grantTenant t.tenantId t.identityRef,
            some (eventWorkRef d.event.eventId t.id)⟩] }
        [.started d.event.eventId t.id]
  | launchRefused {p : Nat} {now : Time} {t : EventTrigger} {d : Delivery}
      {rows : List EventOutbox} (hstage : s.drain = some (p, .launching now t d rows))
      (reason : Refusal) :
      BusMove s (s.to p (.delivering now d rows)) [.refused d.event.eventId t.id reason]
  | launchFailed {p : Nat} {now : Time} {t : EventTrigger} {d : Delivery}
      {rows : List EventOutbox} (hstage : s.drain = some (p, .launching now t d rows)) :
      BusMove s (s.to p (.delivering now { d with passedOver := true } rows))
        [.passedOver d.event.eventId t.id]
  | stamped {p : Nat} {now : Time} {event : EventOutbox} {table : List EventTrigger}
      {passedOver : Bool} {rows : List EventOutbox}
      (hstage : s.drain = some (p, .delivering now ⟨event, [], table, passedOver⟩ rows)) :
      BusMove s { s.to p (.batch now rows) with outbox := markProcessed now event.eventId s.outbox }
        [.stamped event.eventId table]
  | skipped {p : Nat} {now : Time} {event : EventOutbox} {rows : List EventOutbox}
      (hstage : s.drain = some (p, .batch now (event :: rows))) :
      BusMove s (s.to p (.batch now rows)) []
  | dropped {p : Nat} {now : Time} {d : Delivery} {rows : List EventOutbox}
      (hstage : s.drain = some (p, .delivering now d rows)) :
      BusMove s (s.to p (.batch now rows)) []
  | released : BusMove s { s with drain := none } []

theorem stage_eq {s : EventBus} {p : Nat} {stage : TickStage} (h : s.stage p = some stage) :
    s.drain = some (p, stage) := by
  unfold EventBus.stage at h
  split at h
  next q stage' hdrain =>
    by_cases hq : q = p
    · rw [if_pos hq, Option.some.injEq] at h
      rw [hdrain, hq, h]
    · rw [if_neg hq] at h
      cases h
  next => cases h

theorem mem_claimUnprocessed {outbox : List EventOutbox} {e : EventOutbox}
    (h : e ∈ claimUnprocessed outbox) : e ∈ outbox :=
  (List.mem_filter.mp ((List.perm_insertionSort _ _).subset (List.mem_of_mem_take h))).1

theorem busStep_move (s : EventBus) (a : EventAct) :
    BusMove scalarEq grantTenant s (busStep scalarEq grantTenant s a).1
      (busStep scalarEq grantTenant s a).2 := by
  cases a with
  | publish eventId tenantId eventKind payload =>
    simp only [busStep]
    split
    · exact .idle
    next hnew =>
      refine .publish ?_ rfl
      intro e he heq
      exact hnew (List.any_eq_true.mpr ⟨e, he, decide_eq_true heq⟩)
  | editTriggers triggers => exact .triggers triggers
  | otherRun tenantId workRef => exact .otherRun _
  | lock replica now =>
    simp only [busStep]
    split
    · exact .idle
    · exact .lock fun e he => mem_claimUnprocessed he
  | readTriggers replica =>
    simp only [busStep]
    split
    next now event rows hstage => exact .read (stage_eq hstage)
    next => exact .idle
  | consider replica answer =>
    simp only [busStep]
    split
    next now event t queue table passedOver rows hstage =>
      have hstage := stage_eq hstage
      -- the four ways a matched trigger is answered before a run is launched
      cases hc : considerTrigger s.runs event t answer with
      | refused reason => exact .refused hstage reason
      | failed => exact .failed hstage
      | deduped =>
        refine .deduped hstage ?_
        revert hc
        simp only [considerTrigger, runExistsForWorkRef]
        (repeat' split) <;> simp_all
      | fires =>
        refine .fires hstage ?_
        revert hc
        simp only [considerTrigger, runExistsForWorkRef]
        (repeat' split) <;> simp_all
    next => exact .idle
  | launch replica answer =>
    simp only [busStep]
    split
    next now t d rows hstage =>
      have hstage := stage_eq hstage
      cases answer with
      | started => exact .started hstage
      | refused reason => exact .launchRefused hstage (.invocation reason)
      | overBudget reason => exact .launchRefused hstage (.budget reason)
      | failed => exact .launchFailed hstage
    next => exact .idle
  | stamp replica =>
    simp only [busStep]
    split
    next now event table passedOver rows hstage => exact .stamped (stage_eq hstage)
    next => exact .idle
  | skipEvent replica =>
    simp only [busStep]
    split
    next now event rows hstage => exact .skipped (stage_eq hstage)
    next now d rows hstage => exact .dropped (stage_eq hstage)
    next => exact .idle
  | unlock replica | crash replica =>
    simp only [busStep]
    split
    · exact .released
    · exact .idle

end Moves

/-! ## At most one run for a pair -/

/-- What of an event never changes. -/
structure Published where
  eventId : Nat
  tenantId : Nat
  eventKind : String
  payload : Dict

def EventOutbox.published (e : EventOutbox) : Published :=
  ⟨e.eventId, e.tenantId, e.eventKind, e.payload⟩

/-- The events that were published. -/
def EventBus.published (s : EventBus) : List Published := s.outbox.map EventOutbox.published

theorem published_stampClaim (now : Time) (p : Nat) (rows outbox : List EventOutbox) :
    (stampClaim now p rows outbox).map EventOutbox.published = outbox.map EventOutbox.published := by
  rw [stampClaim, List.map_map]
  refine List.map_congr_left fun e _ => ?_
  simp only [Function.comp]
  split <;> rfl

theorem published_markProcessed (now : Time) (eventId : Nat) (outbox : List EventOutbox) :
    (markProcessed now eventId outbox).map EventOutbox.published =
      outbox.map EventOutbox.published := by
  rw [markProcessed, List.map_map]
  refine List.map_congr_left fun e _ => ?_
  simp only [Function.comp]
  split <;> rfl

/-- The events that a tick has in hand. -/
def TickStage.events : TickStage → List EventOutbox
  | .batch _ rows => rows
  | .delivering _ d rows => d.event :: rows
  | .launching _ _ d rows => d.event :: rows

def BusEvent.started? : BusEvent → Option (Nat × Nat)
  | .started eventId triggerId => some (eventId, triggerId)
  | _ => none

/-- The pairs of an event and a trigger that started a run, with repetitions. -/
def startedPairs (events : List BusEvent) : List (Nat × Nat) := events.filterMap BusEvent.started?

/-- The run of a pair. -/
def pairRun (tenantId eventId triggerId : Nat) : WorkRun :=
  ⟨tenantId, some (eventWorkRef eventId triggerId)⟩

/-- The triggers of a delivery are of the event's tenant, and one that is to be launched has
started nothing yet. -/
def TickStage.Ready (started : List (Nat × Nat)) : TickStage → Prop
  | .batch _ _ => True
  | .delivering _ d _ => ∀ t ∈ d.queue, t.tenantId = d.event.tenantId
  | .launching _ t d _ => (∀ t ∈ d.queue, t.tenantId = d.event.tenantId) ∧
      t.tenantId = d.event.tenantId ∧ (d.event.eventId, t.id) ∉ started

/-- Each pair that started a run has that run, and started no other. -/
structure FiredOnce (c : Config EventBus BusEvent) : Prop where
  distinct : ∀ x ∈ c.state.published, ∀ y ∈ c.state.published, x.eventId = y.eventId → x = y
  copies : ∀ p stage, c.state.drain = some (p, stage) →
    ∀ e ∈ stage.events, e.published ∈ c.state.published
  ran : ∀ pair ∈ startedPairs c.events, ∃ x ∈ c.state.published, x.eventId = pair.1 ∧
    pairRun x.tenantId pair.1 pair.2 ∈ c.state.runs
  once : (startedPairs c.events).Nodup
  ready : ∀ p stage, c.state.drain = some (p, stage) → stage.Ready (startedPairs c.events)

section Once
variable {scalarEq : Json → Json → Bool} {grantTenant : Nat → String → Nat}
  {s s' : EventBus} {events es : List BusEvent}

/-- A step that publishes nothing, starts nothing and takes up no new work. -/
theorem FiredOnce.keep (h : FiredOnce ⟨s, events⟩) (hpub : s'.published = s.published)
    (hruns : s.runs ⊆ s'.runs) (hstarted : startedPairs es = [])
    (hcopies : ∀ p stage, s'.drain = some (p, stage) →
      ∀ e ∈ stage.events, e.published ∈ s.published)
    (hready : ∀ p stage, s'.drain = some (p, stage) → stage.Ready (startedPairs events)) :
    FiredOnce ⟨s', events ++ es⟩ := by
  have hpairs : startedPairs (events ++ es) = startedPairs events := by
    rw [startedPairs, List.filterMap_append]
    exact (congrArg (_ ++ ·) hstarted).trans (List.append_nil _)
  refine ⟨?_, ?_, ?_, hpairs ▸ h.once, ?_⟩
  · exact hpub ▸ h.distinct
  · exact hpub ▸ hcopies
  · intro pair hpair
    obtain ⟨x, hx, hid, hrun⟩ := h.ran pair (hpairs ▸ hpair)
    exact ⟨x, hpub ▸ hx, hid, hruns hrun⟩
  · exact hpairs ▸ hready

/-- The same for a replica that goes on from where it was, with no more work than it had. -/
theorem FiredOnce.goOn (h : FiredOnce ⟨s, events⟩) {p : Nat} {stage stage' : TickStage}
    (hstage : s.drain = some (p, stage)) (hstarted : startedPairs es = [])
    (hsub : stage'.events ⊆ stage.events) (hready : stage'.Ready (startedPairs events)) :
    FiredOnce ⟨s.to p stage', events ++ es⟩ := by
  refine h.keep rfl (fun _ => id) hstarted ?_ ?_
  · intro q st hq
    obtain ⟨-, rfl⟩ := Prod.mk.inj (Option.some.inj hq)
    exact fun e he => h.copies p stage hstage e (hsub he)
  · intro q st hq
    obtain ⟨-, rfl⟩ := Prod.mk.inj (Option.some.inj hq)
    exact hready

theorem FiredOnce.move (hgrant : ∀ tenantId ref, grantTenant tenantId ref = tenantId)
    (h : FiredOnce ⟨s, events⟩) (hm : BusMove scalarEq grantTenant s s' es) :
    FiredOnce ⟨s', events ++ es⟩ := by
  cases hm with
  | idle | triggers triggers => exact h.keep rfl (fun _ => id) rfl h.copies h.ready
  | otherRun run =>
    exact h.keep rfl (List.subset_append_left _ _) rfl h.copies h.ready
  | released => exact h.keep rfl (fun _ => id) rfl (fun _ _ hq => by cases hq) (fun _ _ hq => by cases hq)
  | @publish event hnew hopen =>
    have hpub : (EventBus.published { s with outbox := s.outbox ++ [event] }) =
        s.published ++ [event.published] := List.map_append
    -- a new row has an id of its own
    have hfresh : ∀ x ∈ s.published, x.eventId ≠ event.eventId := by
      intro x hx
      obtain ⟨e, he, rfl⟩ := List.mem_map.mp hx
      exact hnew e he
    rw [List.append_nil]
    refine ⟨?_, ?_, ?_, h.once, h.ready⟩
    · intro x hx y hy hid
      rw [hpub, List.mem_append, List.mem_singleton] at hx hy
      obtain hx | rfl := hx
      · obtain hy | rfl := hy
        · exact h.distinct x hx y hy hid
        · exact absurd hid (hfresh x hx)
      · obtain hy | rfl := hy
        · exact absurd hid.symm (hfresh y hy)
        · rfl
    · intro p stage hstage e he
      rw [hpub]
      exact List.mem_append_left _ (h.copies p stage hstage e he)
    · intro pair hpair
      obtain ⟨x, hx, hid, hrun⟩ := h.ran pair hpair
      exact ⟨x, hpub ▸ List.mem_append_left _ hx, hid, hrun⟩
  | @lock p now rows hrows =>
    refine h.keep (published_stampClaim now p rows s.outbox) (fun _ => id) rfl ?_ ?_
    · intro q st hq
      obtain ⟨-, rfl⟩ := Prod.mk.inj (Option.some.inj hq)
      exact fun e he => List.mem_map_of_mem (hrows e he)
    · intro q st hq
      obtain ⟨-, rfl⟩ := Prod.mk.inj (Option.some.inj hq)
      trivial
  | @read p now event rows hstage =>
    refine h.goOn hstage rfl (fun _ => id) ?_
    intro t ht
    have hmatch := (List.mem_filter.mp ht).2
    simp only [Bool.and_eq_true, decide_eq_true_eq] at hmatch
    exact hmatch.1.2
  | refused hstage reason | failed hstage | deduped hstage hrun =>
    exact h.goOn hstage rfl (fun _ => id) fun t ht => h.ready _ _ hstage t (List.mem_cons_of_mem _ ht)
  | @fires p now event t queue table passedOver rows hstage hnone =>
    have hready := h.ready _ _ hstage
    have htenant : t.tenantId = event.tenantId := hready t List.mem_cons_self
    refine h.goOn hstage rfl (fun _ => id) ⟨?_, htenant, ?_⟩
    · exact fun u hu => hready u (List.mem_cons_of_mem _ hu)
    · intro hmem
      obtain ⟨x, hx, hid, hrun⟩ := h.ran _ hmem
      have hcopy : event.published ∈ s.published := h.copies _ _ hstage event List.mem_cons_self
      obtain rfl : x = event.published := h.distinct x hx _ hcopy hid
      exact hnone (htenant ▸ hrun)
  | @started p now t d rows hstage =>
    obtain ⟨hqueue, htenant, hnew⟩ := h.ready _ _ hstage
    have hcopies := h.copies _ _ hstage
    have hpairs : startedPairs (events ++ [.started d.event.eventId t.id]) =
        startedPairs events ++ [(d.event.eventId, t.id)] := by
      rw [startedPairs, List.filterMap_append]
      rfl
    refine ⟨h.distinct, ?_, ?_, ?_, ?_⟩
    · intro q st hq
      obtain ⟨-, rfl⟩ := Prod.mk.inj (Option.some.inj hq)
      exact hcopies
    · intro pair hpair
      rw [hpairs, List.mem_append, List.mem_singleton] at hpair
      obtain hpair | rfl := hpair
      · obtain ⟨x, hx, hid, hrun⟩ := h.ran pair hpair
        exact ⟨x, hx, hid, List.mem_append_left _ hrun⟩
      · refine ⟨d.event.published, hcopies d.event List.mem_cons_self, rfl, ?_⟩
        refine List.mem_append_right _ (List.mem_singleton.mpr ?_)
        rw [hgrant, htenant]
        rfl
    · rw [hpairs]
      exact List.nodup_append_comm.mp (List.nodup_cons.mpr ⟨hnew, h.once⟩)
    · intro q st hq
      obtain ⟨-, rfl⟩ := Prod.mk.inj (Option.some.inj hq)
      exact hqueue
  | launchRefused hstage reason | launchFailed hstage =>
    exact h.goOn hstage rfl (fun _ => id) (h.ready _ _ hstage).1
  | @stamped p now event table passedOver rows hstage =>
    refine h.keep (published_markProcessed now event.eventId s.outbox) (fun _ => id) rfl ?_ ?_
    · intro q st hq
      obtain ⟨-, rfl⟩ := Prod.mk.inj (Option.some.inj hq)
      exact fun e he => h.copies _ _ hstage e (List.mem_cons_of_mem _ he)
    · intro q st hq
      obtain ⟨-, rfl⟩ := Prod.mk.inj (Option.some.inj hq)
      trivial
  | skipped hstage | dropped hstage => exact h.goOn hstage rfl (List.subset_cons_self _ _) trivial

end Once

/-! ## Stamped after every subscriber was settled -/

section Settled
variable (scalarEq : Json → Json → Bool)

/-- The run of a pair exists, or the pair was refused for good. -/
def Settled (c : Config EventBus BusEvent) (event : EventOutbox) (t : EventTrigger) : Prop :=
  pairRun t.tenantId event.eventId t.id ∈ c.state.runs ∨
    ∃ reason, .refused event.eventId t.id reason ∈ c.events

/-- Every trigger that matched is settled. -/
def AllSettled (c : Config EventBus BusEvent) (event : EventOutbox) (table : List EventTrigger) :
    Prop :=
  ∀ t ∈ matchingEventTriggers scalarEq table event, Settled c event t

/-- A delivery that passed over nothing: what matched is settled, or still to be tried. -/
def Delivery.Open (c : Config EventBus BusEvent) (d : Delivery) (inHand : List EventTrigger) : Prop :=
  d.passedOver = false → ∀ t ∈ matchingEventTriggers scalarEq d.table d.event,
    t ∈ inHand ∨ Settled c d.event t

def TickStage.Open (c : Config EventBus BusEvent) : TickStage → Prop
  | .batch _ _ => True
  | .delivering _ d _ => d.Open scalarEq c d.queue
  | .launching _ t d _ => d.Open scalarEq c (t :: d.queue)

/-- The events that are stamped processed are those that a delivery stamped, and these are
settled. -/
structure AllDelivered (c : Config EventBus BusEvent) : Prop where
  processed : ∀ event ∈ c.state.outbox, event.processedAt ≠ none →
    ∃ table, .stamped event.eventId table ∈ c.events
  stamped : ∀ eventId table, .stamped eventId table ∈ c.events →
    ∃ x ∈ c.state.published, x.eventId = eventId ∧
      ∀ event : EventOutbox, event.published = x → AllSettled scalarEq c event table
  open_ : ∀ p stage, c.state.drain = some (p, stage) → stage.Open scalarEq c

/-- The delivery in hand has tried all its triggers and passed over an error of one. -/
def EventBus.stampsOver (s : EventBus) : Bool :=
  match s.drain with
  | some (_, .delivering _ d _) => d.queue.isEmpty && d.passedOver
  | _ => false

/-- No delivery that passed over an error of a dispatch is stamped. -/
def NothingPassedOver (c : Config EventBus BusEvent) : EventAct → Prop
  | .stamp _ => c.state.stampsOver = false
  | _ => True

instance : ∀ c a, Decidable (NothingPassedOver c a) := fun c a => by
  cases a <;> unfold NothingPassedOver <;> infer_instance

end Settled

section Delivered
variable {scalarEq : Json → Json → Bool} {grantTenant : Nat → String → Nat}
  {s s' : EventBus} {events es : List BusEvent} {event : EventOutbox} {t : EventTrigger}

variable {c c' : Config EventBus BusEvent}

section
variable (hruns : c.state.runs ⊆ c'.state.runs) (hevents : c.events ⊆ c'.events)
include hruns hevents

theorem Settled.mono (h : Settled c event t) : Settled c' event t := by
  obtain hrun | ⟨reason, hreason⟩ := h
  · exact .inl (hruns hrun)
  · exact .inr ⟨reason, hevents hreason⟩

theorem Delivery.Open.mono {d : Delivery} {inHand : List EventTrigger}
    (h : d.Open scalarEq c inHand) : d.Open scalarEq c' inHand := by
  intro hpassed t ht
  exact (h hpassed t ht).imp id (Settled.mono hruns hevents)

end

variable {stage : TickStage}

theorem TickStage.Open.mono (hruns : c.state.runs ⊆ c'.state.runs) (hevents : c.events ⊆ c'.events)
    (h : stage.Open scalarEq c) : stage.Open scalarEq c' := by
  cases stage with
  | batch _ _ => trivial
  | delivering _ d _ | launching _ t d _ => exact Delivery.Open.mono hruns hevents h

/-- The trigger in front was settled: the delivery goes on with the others. -/
theorem Delivery.Open.tail {d : Delivery} {inHand : List EventTrigger}
    (h : d.Open scalarEq c (t :: inHand)) (ht : Settled c d.event t) :
    d.Open scalarEq c inHand := by
  intro hpassed u hu
  obtain hu' | hsettled := h hpassed u hu
  · obtain rfl | hu' := List.mem_cons.mp hu'
    · exact .inr ht
    · exact .inl hu'
  · exact .inr hsettled

section
variable (h : AllDelivered scalarEq ⟨s, events⟩)
include h

theorem AllDelivered.keep
    (hprocessed : ∀ e ∈ s'.outbox, e.processedAt ≠ none → ∃ e' ∈ s.outbox, e'.eventId = e.eventId ∧ e'.processedAt ≠ none)
    (hpub : s.published ⊆ s'.published) (hruns : s.runs ⊆ s'.runs)
    (hstamped : ∀ eventId table, .stamped eventId table ∉ es)
    (hopen : ∀ p stage, s'.drain = some (p, stage) → stage.Open scalarEq ⟨s', events ++ es⟩) :
    AllDelivered scalarEq ⟨s', events ++ es⟩ where
  processed := by
    intro e he hne
    obtain ⟨e', he', hid, hne'⟩ := hprocessed e he hne
    obtain ⟨table, htable⟩ := h.processed e' he' hne'
    exact ⟨table, List.mem_append_left _ (hid ▸ htable)⟩
  stamped := by
    intro eventId table hmem
    obtain hmem | hmem := List.mem_append.mp hmem
    · obtain ⟨x, hx, hid, hall⟩ := h.stamped eventId table hmem
      refine ⟨x, hpub hx, hid, fun e he t ht => ?_⟩
      exact Settled.mono hruns (List.subset_append_left _ _) (hall e he t ht)
    · exact absurd hmem (hstamped eventId table)
  open_ := hopen

theorem AllDelivered.later {p : Nat} (hstage : s.drain = some (p, stage)) (es : List BusEvent)
    (hruns : s.runs ⊆ s'.runs) : stage.Open scalarEq ⟨s', events ++ es⟩ := by
  refine TickStage.Open.mono ?_ ?_ (h.open_ p stage hstage)
  · exact hruns
  · exact List.subset_append_left events es

theorem AllDelivered.goOn {p : Nat} {runs : List WorkRun} (hruns : s.runs ⊆ runs)
    (hstamped : ∀ eventId table, .stamped eventId table ∉ es)
    (hopen : stage.Open scalarEq ⟨{ s.to p stage with runs }, events ++ es⟩) :
    AllDelivered scalarEq ⟨{ s.to p stage with runs }, events ++ es⟩ := by
  refine h.keep (fun e he hne => ⟨e, he, rfl, hne⟩) (fun _ => id) hruns hstamped ?_
  intro q st hq
  obtain ⟨-, rfl⟩ := Prod.mk.inj (Option.some.inj hq)
  exact hopen

end

/-- A row that a statement left with the same stamp. -/
theorem processed_stampClaim {now : Time} {p : Nat} {rows outbox : List EventOutbox} :
    ∀ e ∈ stampClaim now p rows outbox, e.processedAt ≠ none → ∃ e' ∈ outbox,
      e'.eventId = e.eventId ∧ e'.processedAt ≠ none := by
  intro e he hne
  obtain ⟨e', he', rfl⟩ := List.mem_map.mp he
  refine ⟨e', he', ?_, ?_⟩
  · split <;> rfl
  · intro hnone
    apply hne
    split <;> exact hnone

/-- A row that the stamp of an event processed is that event's. -/
theorem processed_markProcessed {now : Time} {eventId : Nat} {outbox : List EventOutbox} :
    ∀ e ∈ markProcessed now eventId outbox, e.processedAt ≠ none → e.eventId = eventId ∨
      ∃ e' ∈ outbox, e'.eventId = e.eventId ∧ e'.processedAt ≠ none := by
  intro e he hne
  obtain ⟨e', he', rfl⟩ := List.mem_map.mp he
  by_cases hhit : e'.eventId = eventId ∧ e'.processedAt = none
  · rw [if_pos hhit]
    exact .inl hhit.1
  · rw [if_neg hhit] at hne ⊢
    exact .inr ⟨e', he', rfl, hne⟩

/-- What a trigger table matches depends on what was published only. -/
theorem matching_congr {e e' : EventOutbox} (h : e.published = e'.published)
    (table : List EventTrigger) :
    matchingEventTriggers scalarEq table e = matchingEventTriggers scalarEq table e' := by
  have htenant : e.tenantId = e'.tenantId := congrArg Published.tenantId h
  have hpayload : e.payload = e'.payload := congrArg Published.payload h
  simp only [matchingEventTriggers, htenant, hpayload]

theorem stamped_act {a : EventAct}
    (h : ∃ eventId table, .stamped eventId table ∈ (busStep scalarEq grantTenant c.state a).2) :
    ∃ p, a = .stamp p := by
  obtain ⟨eventId, table, hmem⟩ := h
  cases a with
  | stamp p => exact ⟨p, rfl⟩
  | publish _ _ _ _ => cases hmem
  | editTriggers _ => cases hmem
  | otherRun _ _ => cases hmem
  | lock _ _ | readTriggers _ | skipEvent _ | unlock _ | crash _ =>
      simp only [busStep] at hmem; split at hmem <;> cases hmem
  | consider _ _ | launch _ _ =>
      simp only [busStep] at hmem; (repeat' split at hmem) <;> simp at hmem

theorem AllDelivered.move (hgrant : ∀ tenantId ref, grantTenant tenantId ref = tenantId)
    (h : AllDelivered scalarEq ⟨s, events⟩) (hfired : FiredOnce ⟨s, events⟩)
    (hm : BusMove scalarEq grantTenant s s' es)
    (hclean : (∃ eventId table, .stamped eventId table ∈ es) → s.stampsOver = false) :
    AllDelivered scalarEq ⟨s', events ++ es⟩ := by
  have hnil : ∀ eventId table, BusEvent.stamped eventId table ∉ ([] : List BusEvent) :=
    fun _ _ => List.not_mem_nil
  cases hm with
  | idle =>
    rw [List.append_nil]
    exact h
  | triggers triggers =>
    refine h.keep (fun e he hne => ⟨e, he, rfl, hne⟩) (fun _ => id) (fun _ => id) hnil ?_
    exact fun p st hst => h.later hst [] fun _ => id
  | otherRun run =>
    refine h.keep (fun e he hne => ⟨e, he, rfl, hne⟩) (fun _ => id)
      (List.subset_append_left _ _) hnil ?_
    exact fun p st hst => h.later hst [] (List.subset_append_left _ _)
  | released =>
    exact h.keep (fun e he hne => ⟨e, he, rfl, hne⟩) (fun _ => id) (fun _ => id) hnil
      (fun _ _ hq => by cases hq)
  | @publish new hnew hopen =>
    refine h.keep ?_ ?_ (fun _ => id) hnil ?_
    · intro e he hne
      obtain he | he := List.mem_append.mp he
      · exact ⟨e, he, rfl, hne⟩
      · rw [List.mem_singleton.mp he] at hne
        exact absurd hopen hne
    · show s.outbox.map EventOutbox.published ⊆ (s.outbox ++ [new]).map EventOutbox.published
      rw [List.map_append]
      exact List.subset_append_left _ _
    · exact fun p st hst => h.later hst [] fun _ => id
  -- the rows of the batch are stamped as claimed, not as processed
  | @lock p now rows hrows =>
    refine h.keep processed_stampClaim ?_ (fun _ => id) hnil ?_
    · show s.outbox.map EventOutbox.published ⊆
        (stampClaim now p rows s.outbox).map EventOutbox.published
      rw [published_stampClaim]
      exact fun _ => id
    · intro q st hq
      obtain ⟨-, rfl⟩ := Prod.mk.inj (Option.some.inj hq)
      trivial
  | read hstage => exact h.goOn (fun _ => id) hnil fun _ t ht => .inl ht
  -- a refusal settles its trigger: what is still open is the rest of the queue
  | @refused p now event t queue table passedOver rows hstage reason
  | @launchRefused p now t d rows hstage reason =>
    refine h.goOn (fun _ => id) (fun _ _ hmem => by simp at hmem) ?_
    exact Delivery.Open.tail (h.later hstage _ fun _ => id) (.inr ⟨reason, by simp⟩)
  | failed hstage | launchFailed hstage =>
    exact h.goOn (fun _ => id) (fun _ _ hmem => by simp at hmem) fun hp => by cases hp
  | @deduped p now event t queue table passedOver rows hstage hrun =>
    refine h.goOn (fun _ => id) hnil ?_
    exact Delivery.Open.tail (h.later hstage _ fun _ => id) (.inl hrun)
  | @fires p now event t queue table passedOver rows hstage hnone =>
    refine h.goOn (fun _ => id) hnil ?_
    exact h.later hstage _ fun _ => id
  -- the run is stored under the tenant of the event, which the grant keeps
  | @started p now t d rows hstage =>
    refine h.goOn (List.subset_append_left _ _) (fun _ _ hmem => by simp at hmem) ?_
    refine Delivery.Open.tail (h.later hstage _ (List.subset_append_left _ _)) (.inl ?_)
    refine List.mem_append_right _ (List.mem_singleton.mpr ?_)
    rw [hgrant]
    rfl
  | @stamped p now event table passedOver rows hstage =>
    -- the stamp: no trigger was passed over, so every match of the event is settled
    have hpassed : passedOver = false := by
      have hover := hclean ⟨event.eventId, table, List.mem_singleton.mpr rfl⟩
      simpa [EventBus.stampsOver, hstage] using hover
    have hcopy : event.published ∈ s.published := hfired.copies _ _ hstage event List.mem_cons_self
    have hall : AllSettled scalarEq ⟨s, events⟩ event table := by
      intro t ht
      exact (h.open_ _ _ hstage hpassed t ht).resolve_left List.not_mem_nil
    have hpub : (EventBus.published { s.to p (.batch now rows) with
        outbox := markProcessed now event.eventId s.outbox }) = s.published :=
      published_markProcessed now event.eventId s.outbox
    refine ⟨?_, ?_, ?_⟩
    · intro e he hne
      obtain hid | ⟨e', he', hid, hne'⟩ := processed_markProcessed e he hne
      · exact ⟨table, List.mem_append_right _ (by rw [hid]; exact List.mem_singleton.mpr rfl)⟩
      · obtain ⟨table', htable⟩ := h.processed e' he' hne'
        exact ⟨table', List.mem_append_left _ (hid ▸ htable)⟩
    · intro eventId table' hmem
      rw [hpub]
      obtain hmem | hmem := List.mem_append.mp hmem
      · obtain ⟨x, hx, hid, hold⟩ := h.stamped eventId table' hmem
        refine ⟨x, hx, hid, fun e he t ht => ?_⟩
        exact (hold e he t ht).imp id fun ⟨reason, hreason⟩ =>
          ⟨reason, List.mem_append_left _ hreason⟩
      · obtain ⟨rfl, rfl⟩ := BusEvent.stamped.inj (List.mem_singleton.mp hmem)
        refine ⟨event.published, hcopy, rfl, fun e he t ht => ?_⟩
        rw [matching_congr he] at ht
        have hsettled := hall t ht
        have hid : e.eventId = event.eventId := congrArg Published.eventId he
        unfold Settled at hsettled ⊢
        rw [hid]
        exact hsettled.imp id fun ⟨reason, hreason⟩ => ⟨reason, List.mem_append_left _ hreason⟩
    · intro q st hq
      obtain ⟨-, rfl⟩ := Prod.mk.inj (Option.some.inj hq)
      trivial
  | skipped hstage | dropped hstage => exact h.goOn (fun _ => id) hnil trivial

end Delivered

/-! ## Runs -/

section Runs
variable (scalarEq : Json → Json → Bool) (grantTenant : Nat → String → Nat)
  (hgrant : ∀ tenantId ref, grantTenant tenantId ref = tenantId)
include hgrant

theorem fired_once (acts : List EventAct) :
    FiredOnce ((busMachine scalarEq grantTenant).after acts) := by
  have hstart : FiredOnce (busMachine scalarEq grantTenant).begin_ := by
    refine ⟨?_, ?_, ?_, List.nodup_nil, ?_⟩
    · intro x hx
      cases hx
    · intro p stage h
      cases h
    · intro pair h
      cases h
    · intro p stage h
      cases h
  exact Machine.run_induct (busMachine scalarEq grantTenant)
    (fun c a h => FiredOnce.move hgrant h (busStep_move scalarEq grantTenant c.state a)) hstart acts

theorem all_delivered {acts : List EventAct}
    (hacts : (busMachine scalarEq grantTenant).Along NothingPassedOver
      (busMachine scalarEq grantTenant).begin_ acts) :
    AllDelivered scalarEq ((busMachine scalarEq grantTenant).after acts) := by
  let I : Config EventBus BusEvent → Prop := fun c => FiredOnce c ∧ AllDelivered scalarEq c
  have hstart : I (busMachine scalarEq grantTenant).begin_ := by
    refine ⟨fired_once scalarEq grantTenant hgrant [], ?_, ?_, ?_⟩
    · intro e he
      cases he
    · intro eventId table h
      cases h
    · intro p stage h
      cases h
  have hstep : ∀ c a, I c → NothingPassedOver c a → I ((busMachine scalarEq grantTenant).next c a) := by
    rintro c a ⟨hfired, hdelivered⟩ hclean
    have hm := busStep_move scalarEq grantTenant c.state a
    refine ⟨FiredOnce.move hgrant hfired hm, AllDelivered.move hgrant hdelivered hfired hm ?_⟩
    intro hstamped
    obtain ⟨p, rfl⟩ := stamped_act hstamped
    exact hclean
  exact ((busMachine scalarEq grantTenant).along_induct hstep hstart hacts).2

/-- Each pair of an event and a trigger starts at most one run. If no delivery that is
stamped passed over an error, an event is processed only after each trigger that its
delivery found active and matching has its run or was refused for good. -/
theorem subscriptions_fire_once_and_settle (acts : List EventAct) :
    let M := busMachine scalarEq grantTenant
    (startedPairs (M.after acts).events).Nodup ∧
      (M.Along NothingPassedOver M.begin_ acts →
        ∀ event ∈ (M.after acts).state.outbox, event.processedAt ≠ none →
          (∃ table, .stamped event.eventId table ∈ (M.after acts).events) ∧
          ∀ table, .stamped event.eventId table ∈ (M.after acts).events →
            AllSettled scalarEq (M.after acts) event table) := by
  intro M
  have hfired : FiredOnce (M.after acts) := fired_once scalarEq grantTenant hgrant acts
  refine ⟨hfired.once, fun hacts event hevent hprocessed => ?_⟩
  have hdelivered : AllDelivered scalarEq (M.after acts) :=
    all_delivered scalarEq grantTenant hgrant hacts
  refine ⟨hdelivered.processed event hevent hprocessed, fun table htable => ?_⟩
  obtain ⟨x, hx, hid, hall⟩ := hdelivered.stamped event.eventId table htable
  refine hall event ?_
  exact hfired.distinct _ (List.mem_map_of_mem hevent) x hx hid.symm

end Runs

/-- One event, one subscriber of everything, one delivery. -/
def oneDelivery (answer : Launched) : List EventAct :=
  [.publish 5 1 "disk.full" [], .editTriggers [⟨3, 1, .event, .active, 9, "agent:triage", none⟩],
    .lock 0 10, .readTriggers 0, .consider 0 .ready, .launch 0 answer, .stamp 0]

theorem subscriptions_fire_once_and_settle_started :
    let M := busMachine (· == ·) (fun tenantId _ => tenantId)
    (startedPairs (M.after (oneDelivery .started)).events).Nodup ∧
      ∀ event ∈ (M.after (oneDelivery .started)).state.outbox, event.processedAt ≠ none →
        (∃ table, .stamped event.eventId table ∈ (M.after (oneDelivery .started)).events) ∧
        ∀ table, .stamped event.eventId table ∈ (M.after (oneDelivery .started)).events →
          AllSettled (· == ·) (M.after (oneDelivery .started)) event table := by
  have h := subscriptions_fire_once_and_settle (· == ·) (fun tenantId _ => tenantId)
    (fun _ _ => rfl) (oneDelivery .started)
  exact ⟨h.1, h.2 (by decide)⟩

/-- The token grant of the only subscriber fails: the event is processed, and the subscriber
has no run and no refusal. -/
theorem failed_trigger_is_dropped :
    let c := (busMachine (· == ·) (fun tenantId _ => tenantId)).after (oneDelivery .failed)
    ¬∀ event ∈ c.state.outbox, event.processedAt ≠ none →
      ∀ table, .stamped event.eventId table ∈ c.events → AllSettled (· == ·) c event table := by
  intro c h
  have hsettled := h ⟨5, 1, "disk.full", [], some 10, some 0, some 10⟩ (List.mem_singleton.mpr rfl)
    nofun [⟨3, 1, .event, .active, 9, "agent:triage", none⟩]
    (List.mem_cons_of_mem _ (List.mem_singleton.mpr rfl))
    ⟨3, 1, .event, .active, 9, "agent:triage", none⟩ (List.mem_singleton.mpr rfl)
  obtain hrun | ⟨reason, hreason⟩ := hsettled
  · exact absurd hrun List.not_mem_nil
  · have hevents : c.events = [.passedOver 5 3,
        .stamped 5 [⟨3, 1, .event, .active, 9, "agent:triage", none⟩]] := rfl
    rw [hevents] at hreason
    simp at hreason

end Meho.Events
