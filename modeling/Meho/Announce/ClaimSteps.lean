import Meho.Announce.Publish

/- What one step of a publishing call can do, and what the locks keep.

A row's entry of the stream plays no part in the rules of a claim: they are about the rows
without it (`Publishing.core`), which a delivery leaves as they are. `CallStep` is every step
with what it needs. `Exclusive` says that a row and the counter are locked by one call at a
time. -/
namespace Meho.Announce
open Meho.Lib

/-- A row without its entry of the stream. -/
def AgentAnnouncement.core (r : AgentAnnouncement) : AgentAnnouncement :=
  { r with streamEntryId := none }

namespace Publishing

def core (s : Publishing) : List AgentAnnouncement := s.rows.map AgentAnnouncement.core

theorem core_mem {s : Publishing} {r : AgentAnnouncement} (h : r ∈ s.rows) : r.core ∈ s.core :=
  List.mem_map.mpr ⟨r, h, rfl⟩

theorem mem_core {s : Publishing} {r : AgentAnnouncement} (h : r ∈ s.core) :
    ∃ r' ∈ s.rows, r'.event = r.event ∧ r'.idempotencyKey = r.idempotencyKey ∧ r'.seq = r.seq := by
  obtain ⟨r', hr', rfl⟩ := List.mem_map.mp h
  exact ⟨r', hr', rfl, rfl, rfl⟩

end Publishing

/-! ## Steps -/

/-- Where a call may go without a new row or an entry. -/
inductive Goes (s : Publishing) (c : Call) : CallAt → Prop where
  | statement : Goes s c (s.statement c)
  | collide {start : Option Nat} {n : Nat} (h : c.place = .numbered start n) : Goes s c .collided
  | fail : Goes s c (.raised .failed)

/-- One statement of a publishing call. -/
inductive CallStep (s : Publishing) : Publishing → List PublishEvent → Prop where
  | idle : CallStep s s []
  | publish (event : AgentAnnouncementEvent) (key : Option String) :
    CallStep s { s with calls := s.calls ++ [⟨event, key, .called⟩] } []
  | goto {i : Nat} {c : Call} {place : CallAt} (h : s.calls[i]? = some c) (hgoes : Goes s c place) :
    CallStep s (s.goto i c place) []
  | insert {i n : Nat} {start : Option Nat} {c : Call} {place : CallAt} (h : s.calls[i]? = some c)
      (hn : c.place = .numbered start n)
      (hfree : ∀ r ∈ s.rows, (AgentAnnouncement.mk c.event c.key none (some n)).conflicts r = false)
      (hplace : place = .stored ⟨c.event, false, some n, false⟩ ∨ place = .raised .failed) :
    CallStep s
      { s.goto i c place with lastSeq := n, rows := s.rows ++ [⟨c.event, c.key, none, some n⟩] }
      [.inserted i ⟨c.event, c.key, none, some n⟩]
  /-- The script runs, or only its failure is seen. -/
  | script (entry : Nat) (wrote : Bool) {i : Nat} {c : Call} {stored : StoredStep} {place : CallAt}
      {s' : Publishing} {es : List PublishEvent} (h : s.calls[i]? = some c)
      (hc : c.place = .delivering stored)
      (hrun : (s', es) = (s, []) ∨
        s' = (s.runScript stored.event.eventId).1 ∧ es = (s.runScript stored.event.eventId).2.2.2)
      (hplace : place = .answered ⟨stored.event, stored.seq, none, stored.replayed, true⟩ ∨
        place = .written stored entry wrote) :
    CallStep s (s'.goto i c place) es
  | mark {i entry : Nat} {wrote committed : Bool} {c : Call} {stored : StoredStep}
      (h : s.calls[i]? = some c) (hc : c.place = .written stored entry wrote) :
    CallStep s (s.mark i c stored entry wrote committed) []
  | expire {id : Nat} (h : (s.markers id).isSome = true) :
    CallStep s { s with markers := Function.update s.markers id none } [.markerExpired id]

theorem callStep_step (s : Publishing) (a : PublishAction) :
    CallStep s (s.step a).1 (s.step a).2 := by
  cases a with
  | publish event key => exact .publish event key
  | statement i =>
    simp only [Publishing.step]
    split
    · rename_i h
      exact .goto h .statement
    · exact .idle
  | insert i commit =>
    simp only [Publishing.step]
    split
    · rename_i event key start n h
      simp only [Publishing.insert]
      split
      · exact .goto h (.collide rfl)
      · rename_i hany
        -- the insert goes through only where no row has its key, its number or its claim
        have hfree : ∀ r ∈ s.rows,
            (AgentAnnouncement.mk event key none (some n)).conflicts r = false := fun r hr =>
          Bool.eq_false_iff.mpr fun hconf => hany (List.any_eq_true.mpr ⟨r, hr, hconf⟩)
        cases commit with
        | rolledBack => exact .goto h .fail
        | done => exact .insert h rfl hfree (.inl rfl)
        | replyLost => exact .insert h rfl hfree (.inr rfl)
    · exact .idle
  | script i outcome =>
    simp only [Publishing.step]
    split
    · rename_i event key stored h
      cases outcome with
      | rolledBack => exact .script 0 false h rfl (.inl rfl) (.inl rfl)
      | replyLost => exact .script 0 false h rfl (.inr ⟨rfl, rfl⟩) (.inl rfl)
      | done => exact .script _ _ h rfl (.inr ⟨rfl, rfl⟩) (.inr rfl)
    · exact .idle
  | mark i committed =>
    simp only [Publishing.step]
    split
    · rename_i h
      exact .mark h rfl
    · exact .idle
  | crash i =>
    simp only [Publishing.step]
    split
    · exact .idle
    · exact .idle
    · rename_i h
      exact .goto h .fail
    · exact .idle
  | expireMarker id =>
    simp only [Publishing.step]
    split
    · rename_i h
      exact .expire h
    · exact .idle

/-! ## Locks -/

/-- At most one call holds the counter, and one the lock of a claim. -/
structure Exclusive (s : Publishing) : Prop where
  counter : ∀ (i j : Nat) (c d : Call), s.calls[i]? = some c → s.calls[j]? = some d →
    c.place.holdsCounter = true → d.place.holdsCounter = true → i = j
  rows : ∀ (i j id : Nat) (c d : Call), s.calls[i]? = some c → s.calls[j]? = some d →
    c.place.lockedRow = some id → d.place.lockedRow = some id → i = j

variable {s : Publishing} {d : Call}

theorem counterFree_calls (h : s.counterFree = true) {j : Nat} (hd : s.calls[j]? = some d) :
    d.place.holdsCounter = false := by
  unfold Publishing.counterFree at h
  rw [Bool.not_eq_true', List.any_eq_false] at h
  exact Bool.eq_false_iff.mpr (h d (List.mem_of_getElem? hd))

theorem rowFree_calls {id : Nat} (h : s.rowFree id = true) {j : Nat} (hd : s.calls[j]? = some d) :
    d.place.lockedRow ≠ some id := by
  unfold Publishing.rowFree at h
  rw [Bool.not_eq_true', List.any_eq_false] at h
  simpa using h d (List.mem_of_getElem? hd)

variable {c : Call}

theorem goto_calls {i : Nat} (h : s.calls[i]? = some c) (place : CallAt) {j : Nat}
    (hd : (s.goto i c place).calls[j]? = some d) :
    j = i ∧ d = { c with place } ∨ j ≠ i ∧ s.calls[j]? = some d := by
  by_cases hj : j = i
  · subst hj
    have hat := Parties.moveOne_at h { c with place }
    exact .inl ⟨rfl, Option.some.inj (hd.symm.trans hat)⟩
  · have hother := Parties.moveOne_other s.calls (Ne.symm hj) { c with place }
    exact .inr ⟨hj, hother.symm.trans hd⟩

variable {s' : Publishing}

theorem Exclusive.goto (h : Exclusive s) {i : Nat} (hc : s.calls[i]? = some c) {place : CallAt}
    (hcalls : s'.calls = (s.goto i c place).calls)
    (hcounter : place.holdsCounter = true → c.place.holdsCounter = true ∨ s.counterFree = true)
    (hrow : ∀ id, place.lockedRow = some id → c.place.lockedRow = some id ∨ s.rowFree id = true) :
    Exclusive s' := by
  constructor
  · intro j k d e hd he hdc hec
    rw [hcalls] at hd he
    rcases goto_calls hc place hd with ⟨rfl, rfl⟩ | ⟨hj, hd'⟩ <;>
      rcases goto_calls hc place he with ⟨rfl, rfl⟩ | ⟨hk, he'⟩
    · rfl
    · rcases hcounter hdc with hold | hfree
      · exact h.counter _ _ _ _ hc he' hold hec
      · rw [counterFree_calls hfree he'] at hec
        cases hec
    · rcases hcounter hec with hold | hfree
      · exact h.counter _ _ _ _ hd' hc hdc hold
      · rw [counterFree_calls hfree hd'] at hdc
        cases hdc
    · exact h.counter _ _ _ _ hd' he' hdc hec
  · intro j k id d e hd he hdr her
    rw [hcalls] at hd he
    rcases goto_calls hc place hd with ⟨rfl, rfl⟩ | ⟨hj, hd'⟩ <;>
      rcases goto_calls hc place he with ⟨rfl, rfl⟩ | ⟨hk, he'⟩
    · rfl
    · rcases hrow id hdr with hold | hfree
      · exact h.rows _ _ _ _ _ hc he' hold her
      · exact absurd her (rowFree_calls hfree he')
    · rcases hrow id her with hold | hfree
      · exact h.rows _ _ _ _ _ hd' hc hdr hold
      · exact absurd hdr (rowFree_calls hfree hd')
    · exact h.rows _ _ _ _ _ hd' he' hdr her

/-- A place without locks. -/
def CallAt.Unlocked (p : CallAt) : Prop := p.holdsCounter = false ∧ p.lockedRow = none

theorem Exclusive.unlock (h : Exclusive s) {i : Nat} (hc : s.calls[i]? = some c) {place : CallAt}
    (hcalls : s'.calls = (s.goto i c place).calls) (hplace : place.Unlocked) : Exclusive s' := by
  refine h.goto hc hcalls (fun hholds => ?_) fun id hid => ?_
  · rw [hplace.1] at hholds
    cases hholds
  · rw [hplace.2] at hid
    cases hid

theorem looked_unlocked {found : Except ClaimErrorCode (Option StoredStep)} {fresh : CallAt}
    (h : fresh.Unlocked) : (Publishing.looked found fresh).Unlocked := by
  unfold Publishing.looked
  split
  · exact ⟨rfl, rfl⟩
  · exact ⟨rfl, rfl⟩
  · exact h

/-- What a statement locks was free. -/
theorem statement_locks (s : Publishing) (c : Call) :
    ((s.statement c).holdsCounter = true → c.place.holdsCounter = true ∨ s.counterFree = true) ∧
      ∀ id, (s.statement c).lockedRow = some id →
        c.place.lockedRow = some id ∨ s.rowFree id = true := by
  -- most statements end without a lock, where there is nothing to show
  have hfree : ∀ {p : CallAt}, p.Unlocked →
      (p.holdsCounter = true → c.place.holdsCounter = true ∨ s.counterFree = true) ∧
        ∀ id, p.lockedRow = some id → c.place.lockedRow = some id ∨ s.rowFree id = true := by
    intro p hp
    refine ⟨fun hholds => ?_, fun id hid => ?_⟩
    · rw [hp.1] at hholds
      cases hholds
    · rw [hp.2] at hid
      cases hid
  unfold Publishing.statement
  split
  · rename_i hcalled
    split
    · exact hfree ⟨rfl, rfl⟩
    · split
      · exact hfree (looked_unlocked ⟨rfl, rfl⟩)
      · unfold Publishing.lockStart
        split
        · exact hfree ⟨rfl, rfl⟩
        · split
          · apply hfree
            rw [hcalled]
            exact ⟨rfl, rfl⟩
          · rename_i hrow
            split
            · exact hfree ⟨rfl, rfl⟩
            · refine ⟨fun hholds => (by cases hholds), fun id hid => .inr ?_⟩
              obtain rfl := Option.some.inj hid
              simpa using hrow
  · rename_i start hlocked
    unfold Publishing.lookUnderLock Publishing.looked
    split
    · exact hfree ⟨rfl, rfl⟩
    · exact hfree ⟨rfl, rfl⟩
    · rw [hlocked]
      exact ⟨fun hholds => (by cases hholds), fun id hid => .inl hid⟩
  · rename_i start hunkeyed
    unfold Publishing.checkCompleted
    split
    · exact hfree ⟨rfl, rfl⟩
    · rw [hunkeyed]
      exact ⟨fun hholds => (by cases hholds), fun id hid => .inl hid⟩
  · split
    · rename_i hcounter
      exact ⟨fun _ => .inr hcounter, fun id hid => by cases hid⟩
    · exact hfree ⟨rfl, rfl⟩
  -- the counter is locked second: the row lock of the claim is held already
  · rename_i start hopened
    rw [hopened]
    split
    · rename_i hcounter
      exact ⟨fun _ => .inr hcounter, fun id hid => .inl hid⟩
    · exact ⟨fun hholds => (by cases hholds), fun id hid => .inl hid⟩
  · unfold Publishing.lookAgain
    apply hfree
    apply looked_unlocked
    split <;> exact ⟨rfl, rfl⟩
  · rename_i step hstored
    unfold Publishing.lockStored
    split
    · exact hfree ⟨rfl, rfl⟩
    · split
      · exact hfree ⟨rfl, rfl⟩
      · split
        · apply hfree
          rw [hstored]
          exact ⟨rfl, rfl⟩
        · rename_i hrow
          split
          · exact hfree ⟨rfl, rfl⟩
          · refine ⟨fun hholds => (by cases hholds), fun id hid => .inr ?_⟩
            obtain rfl := Option.some.inj hid
            simpa using hrow
  · exact ⟨.inl, fun _ => .inl⟩

theorem runScript_calls (s : Publishing) (id : Nat) : (s.runScript id).1.calls = s.calls := by
  unfold Publishing.runScript
  split <;> rfl

theorem runScript_rows (s : Publishing) (id : Nat) :
    (s.runScript id).1.rows = s.rows ∧ (s.runScript id).1.lastSeq = s.lastSeq := by
  unfold Publishing.runScript
  split <;> exact ⟨rfl, rfl⟩

theorem Exclusive.step {es : List PublishEvent} (h : Exclusive s) (hs : CallStep s s' es) :
    Exclusive s' := by
  cases hs with
  | idle => exact h
  | expire => exact ⟨h.counter, h.rows⟩
  | publish event key =>
    -- a new call holds no lock
    have hold : ∀ {k : Nat} {d : Call}, (s.calls ++ [(⟨event, key, .called⟩ : Call)])[k]? = some d →
        ¬ d.place.Unlocked → s.calls[k]? = some d := by
      intro k d hk hd
      rcases Nat.lt_or_ge k s.calls.length with hlt | hge
      · rwa [List.getElem?_append_left hlt] at hk
      · rw [List.getElem?_append_right hge] at hk
        rw [List.mem_singleton.mp (List.mem_of_getElem? hk)] at hd
        exact absurd ⟨rfl, rfl⟩ hd
    constructor
    · intro i j c d hc hd hcc hdc
      refine h.counter i j c d (hold hc fun hu => ?_) (hold hd fun hu => ?_) hcc hdc
      · rw [hu.1] at hcc
        cases hcc
      · rw [hu.1] at hdc
        cases hdc
    · intro i j id c d hc hd hcr hdr
      refine h.rows i j id c d (hold hc fun hu => ?_) (hold hd fun hu => ?_) hcr hdr
      · rw [hu.2] at hcr
        cases hcr
      · rw [hu.2] at hdr
        cases hdr
  | @goto i c place hc hgoes =>
    cases hgoes with
    | statement =>
      obtain ⟨hcounter, hrow⟩ := statement_locks s c
      exact h.goto hc rfl hcounter hrow
    | collide => exact h.unlock hc rfl ⟨rfl, rfl⟩
    | fail => exact h.unlock hc rfl ⟨rfl, rfl⟩
  | insert hc hn hfree hplace =>
    rcases hplace with rfl | rfl <;> exact h.unlock hc rfl ⟨rfl, rfl⟩
  | @script entry wrote i c stored place s₁ _ hc hdelivering hrun hplace =>
    have hcalls : s₁.calls = s.calls := by
      rcases hrun with heq | ⟨rfl, -⟩
      · rw [(Prod.mk.inj heq).1]
      · exact runScript_calls s _
    have hmoved : (s₁.goto i c place).calls = (s.goto i c place).calls := by
      show Parties.moveOne s₁.calls i _ = Parties.moveOne s.calls i _
      rw [hcalls]
    refine h.goto hc hmoved (fun hholds => ?_) fun id hid => .inl ?_
    · rcases hplace with rfl | rfl <;> cases hholds
    · rcases hplace with rfl | rfl
      · cases hid
      · rw [hdelivering]
        exact hid
  | mark hc => exact h.unlock hc rfl ⟨rfl, rfl⟩

end Meho.Announce
