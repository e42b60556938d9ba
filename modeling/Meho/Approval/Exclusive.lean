import Meho.Approval.Moves
import Meho.Lib.Index

/- One run at a time: seen from any one request, the queue is a ticket machine.

`Sim` relates a world to the ticket of a request: who may hold it, and what the
row must look like at each stage. The simulation is `exclusive_next`: every
action of the queue, by any process in any order, is a ticket step on every
request at once. What holds of every ticket history (`Ticket.Run.precedes`,
`Ticket.Run.stopped`) then holds of every history of the queue.

The invariant has two parts beside the tickets: the files of all requests are
 in order, and a mint that found an approval still finds the row as it read it
unless somebody else used it first. -/
namespace Meho.Approval
open Meho.Lib

/-! ## The simulation -/

def World.Holds (w : World) (pid : Nat) (h : Hold) : Prop :=
  ∃ p, w.procs[pid]? = some p ∧ p.hold = some h

/-- Nobody holds the request. -/
def World.Free (w : World) (id : Nat) : Prop := ∀ pid h, w.Holds pid h → h.requestId ≠ id

/-- The row's run was claimed, and re-claimed `attempt` times. -/
structure ApprovalRequest.Claimed (r : ApprovalRequest) (attempt : Nat) : Prop where
  status : r.status = .approved
  resumedAt : r.resumedAt.isSome = true
  rerunCount : r.rerunCount = attempt

/-- The phase of a holder is the stage of the ticket. -/
def Phase.At : Phase → Stage → Prop
  | .waiting, stage => stage = .claimed
  | .running, stage => stage = .going
  | .ended, stage => stage ≠ .going

/-- The world shows the request at this stage of its ticket. -/
def Sim (w : World) (id : Nat) : Ticket → Prop
  | .unused => (∀ r, w.store.requests[id]? = some r → r.resumedAt = none) ∧ w.Free id
  | .held n stage =>
    (∃ r, w.store.requests[id]? = some r ∧ r.Claimed n ∧ r.resumeResult = none) ∧
    (∀ pid h, w.Holds pid h → h.requestId = id → h.attempt = n ∧ h.phase.At stage) ∧
    (∀ pid₁ pid₂ h₁ h₂, w.Holds pid₁ h₁ → w.Holds pid₂ h₂ → h₁.requestId = id →
      h₂.requestId = id → pid₁ = pid₂)
  | .ended n ok =>
    (∃ r result, w.store.requests[id]? = some r ∧ r.Claimed n ∧
      r.resumeResult = some result ∧ resultOk result = ok) ∧ w.Free id
  | .spent =>
    (∃ r n, w.store.requests[id]? = some r ∧ r.Claimed n ∧ r.resumeResult = none) ∧ w.Free id

variable {w' : World}

theorem Sim.frame {w : World} {id : Nat} {t : Ticket} (h : Sim w id t)
    (hkeep : ∀ r, w.store.requests[id]? = some r → r.status = .approved → w'.store.requests[id]? = some r)
    (hnew : ∀ r, w'.store.requests[id]? = some r → w.store.requests[id]? = some r ∨ r.resumedAt = none)
    (hhold : ∀ pid h', w'.Holds pid h' → h'.requestId = id → ∃ h, w.Holds pid h ∧ h.Onward h') :
    Sim w' id t := by
  have hfree : w.Free id → w'.Free id := by
    intro hf pid h' hh' hid
    obtain ⟨h, hh, ho⟩ := hhold pid h' hh' hid
    exact hf pid h hh (ho.requestId.symm.trans hid)
  cases t with
  | unused =>
    refine ⟨?_, hfree h.2⟩
    intro r hr
    rcases hnew r hr with hold | hnone
    · exact h.1 r hold
    · exact hnone
  | held n stage =>
    obtain ⟨⟨r, hr, hc, hres⟩, hall, huniq⟩ := h
    refine ⟨⟨r, hkeep r hr hc.status, hc, hres⟩, ?_, ?_⟩
    · intro pid h' hh' hid
      obtain ⟨h, hh, ho⟩ := hhold pid h' hh' hid
      obtain ⟨ha, hw⟩ := hall pid h hh (ho.requestId.symm.trans hid)
      refine ⟨ho.attempt.trans ha, ?_⟩
      rcases ho.phase with hp | ⟨hp, hp'⟩
      · rw [hp]; exact hw
      · -- a claim given up before its run: the ticket is claimed, not going
        rw [hp] at hw
        rw [hp']
        intro hgoing
        exact absurd (hw.symm.trans hgoing) (by decide)
    · intro pid₁ pid₂ h₁ h₂ hh₁ hh₂ hid₁ hid₂
      obtain ⟨g₁, hg₁, ho₁⟩ := hhold pid₁ h₁ hh₁ hid₁
      obtain ⟨g₂, hg₂, ho₂⟩ := hhold pid₂ h₂ hh₂ hid₂
      exact huniq pid₁ pid₂ g₁ g₂ hg₁ hg₂ (ho₁.requestId.symm.trans hid₁)
        (ho₂.requestId.symm.trans hid₂)
  | ended n ok =>
    obtain ⟨⟨r, result, hr, hc, hres, hok⟩, hf⟩ := h
    exact ⟨⟨r, result, hkeep r hr hc.status, hc, hres, hok⟩, hfree hf⟩
  | spent =>
    obtain ⟨⟨r, n, hr, hc, hres⟩, hf⟩ := h
    exact ⟨⟨r, n, hkeep r hr hc.status, hc, hres⟩, hfree hf⟩

section
variable {w : World} {s' : Store} {pid : Nat} {p p' : Proc}

theorem holds_set (hp : w.procs[pid]? = some p) {pid' : Nat} {h : Hold} :
    World.Holds ⟨s', w.procs.set pid p'⟩ pid' h ↔
      (pid' = pid ∧ p'.hold = some h) ∨ (pid' ≠ pid ∧ w.Holds pid' h) := by
  have hlt : pid < w.procs.length := (List.getElem?_eq_some_iff.mp hp).1
  unfold World.Holds
  by_cases hid : pid' = pid
  · subst hid
    simp [hlt]
  · simp [hid, Ne.symm hid]

theorem Sim.frame_ne {id id₀ : Nat} {t : Ticket} (h : Sim w id t) (hp : w.procs[pid]? = some p)
    (hrow : s'.requests[id]? = w.store.requests[id]?)
    (hhold : ∀ h', p'.hold = some h' → h'.requestId = id₀) (hne : id ≠ id₀) :
    Sim ⟨s', w.procs.set pid p'⟩ id t := by
  refine h.frame (fun r hr _ => by rw [hrow]; exact hr) (fun r hr => .inl (hrow ▸ hr)) ?_
  intro pid' h' hh' hid
  rcases (holds_set hp).mp hh' with ⟨rfl, hp'⟩ | ⟨-, hh⟩
  · exact absurd (hid.symm.trans (hhold h' hp')) hne
  · exact ⟨h', hh, Hold.Onward.refl h'⟩

end

variable {r : ApprovalRequest}

section
variable {w : World} {id : Nat} {t : Ticket}

theorem Sim.unclaimed (h : Sim w id t) (hr : w.store.requests[id]? = some r)
    (hn : r.resumedAt = none) : t = .unused := by
  have hcontra : ∀ n, r.Claimed n → False := by
    intro n hc
    have := hc.resumedAt
    rw [hn] at this
    cases this
  cases t with
  | unused => rfl
  | held n stage =>
    obtain ⟨⟨r', hr', hc, -⟩, -⟩ := h
    rw [hr] at hr'
    cases hr'
    exact (hcontra n hc).elim
  | ended n ok =>
    obtain ⟨⟨r', result, hr', hc, -⟩, -⟩ := h
    rw [hr] at hr'
    cases hr'
    exact (hcontra n hc).elim
  | spent =>
    obtain ⟨⟨r', n, hr', hc, -⟩, -⟩ := h
    rw [hr] at hr'
    cases hr'
    exact (hcontra n hc).elim

theorem Sim.holder {pid : Nat} {h : Hold} (hsim : Sim w id t) (hh : w.Holds pid h)
    (hid : h.requestId = id) : ∃ stage, t = .held h.attempt stage ∧ h.phase.At stage := by
  cases t with
  | unused | ended n ok | spent => exact absurd hid (hsim.2 pid h hh)
  | held n stage =>
    obtain ⟨ha, hw⟩ := hsim.2.1 pid h hh hid
    exact ⟨stage, by rw [ha], hw⟩

theorem Sim.finished {result : Dict} (h : Sim w id t) (hr : w.store.requests[id]? = some r)
    (hres : r.resumeResult = some result) (hset : r.resumedAt.isSome = true) :
    t = .ended r.rerunCount (resultOk result) := by
  cases t with
  | unused =>
    have := h.1 r hr
    rw [this] at hset
    cases hset
  | held n stage =>
    obtain ⟨⟨r', hr', -, hnone⟩, -⟩ := h
    rw [hr] at hr'
    cases hr'
    rw [hres] at hnone
    cases hnone
  | ended n ok =>
    obtain ⟨⟨r', result', hr', hc, hres', hok⟩, -⟩ := h
    rw [hr] at hr'
    cases hr'
    rw [hres] at hres'
    cases hres'
    rw [hc.rerunCount, hok]
  | spent =>
    obtain ⟨⟨r', n, hr', -, hnone⟩, -⟩ := h
    rw [hr] at hr'
    cases hr'
    rw [hres] at hnone
    cases hnone

end

/-! ## The invariant -/

/-- What a mint that found an approval can count on: the row is approved for good, and it is
the row the mint read as long as nobody used the approval. -/
def MintReads (s : Store) : Proc → Prop
  | .mintClaim _ id approval =>
    ∃ r, s.requests[id]? = some r ∧ r.status = .approved ∧ (r.resumedAt = none → r = approval)
  | _ => True

/-- The invariant of worlds. -/
structure WorldOk (w : World) : Prop where
  files : ∀ id, FileOk id (w.store.file id)
  first : ∀ p ∈ w.procs, p.First
  mints : ∀ p ∈ w.procs, MintReads w.store p

theorem MintReads.of_not_mint {s : Store} {p : Proc}
    (h : ∀ call id approval, p ≠ .mintClaim call id approval) : MintReads s p := by
  cases p with
  | mintClaim call id approval => exact absurd rfl (h call id approval)
  | _ => trivial

/-- What the mint reads stays as it is through every step on the request's file. -/
theorem MintReads.step {s s' : Store} {p : Proc} (h : MintReads s p)
    (hok : ∀ id, FileOk id (s.file id)) (hf : ∀ id, FileStep id (s.file id) (s'.file id)) :
    MintReads s' p := by
  cases p with
  | mintClaim call id approval =>
    obtain ⟨r, hr, hs, hread⟩ := h
    obtain ⟨r', hr', hl⟩ := (hf id).later hr
    refine ⟨r', hr', ?_, ?_⟩
    · rw [hl.status (by rw [hs]; decide), hs]
    · intro hn
      have hsame := (hf id).unclaimed (hok id) hr hs hr' hn
      rw [hsame] at hn ⊢
      exact hread hn
  | _ => trivial

variable {es : List Event}

theorem Move.file {w : World} {pid : Nat} {p p' : Proc} {s' : Store} (hw : WorldOk w)
    (hsim : ∀ id, ∃ t, Sim w id t) (hp : w.procs[pid]? = some p) (h : Move w.store p s' p' es)
    (id : Nat) : FileStep id (w.store.file id) (s'.file id) := by
  have hmem : p ∈ w.procs := List.mem_of_getElem? hp
  cases h with
  | quiet hf _ _ _ _ => exact .queue (hf id)
  | claim hr hs hn _ _ _ => exact claim_file hr hs hn id
  | reclaim hr hs hfail hs' _ _ _ _ =>
    rw [hs' id]
    exact reclaim_file hr hs hfail id
  | start _ _ _ | stop _ _ _ _ => exact FileStep.of_eq rfl
  | @record h result es hh _ _ =>
    -- the holder's claim says what the row looks like
    obtain ⟨t, ht⟩ := hsim h.requestId
    obtain ⟨stage, rfl, -⟩ := ht.holder ⟨p, hp, hh⟩ rfl
    obtain ⟨⟨r, hr, hc, hres⟩, -⟩ := ht
    exact record_file hr hc.status hc.resumedAt hres id
  | mint heq hs =>
    subst heq
    obtain ⟨r, hr, hs', hread⟩ := hw.mints _ hmem
    obtain ⟨r', hr', hn, rfl⟩ := consumeRemoteWriteApproval_some hs
    rw [hr] at hr'
    cases hr'
    rw [← hread hn]
    exact mint_file hr hs' hn id

section OneProcess
variable {w : World} {pid : Nat} {p p' : Proc} {s' : Store} {h : Hold}

/-- A process took the claim of a request nobody held. -/
theorem Sim.taken {r' : ApprovalRequest} (hp : w.procs[pid]? = some p)
    (hfree : w.Free h.requestId) (hr' : s'.requests[h.requestId]? = some r')
    (hc : r'.Claimed h.attempt) (hres : r'.resumeResult = none) (hp' : p'.hold = some h)
    (hph : h.phase ≠ .running) :
    Sim ⟨s', w.procs.set pid p'⟩ h.requestId (.held h.attempt .claimed) := by
  -- only the process itself can hold the request
  have hself : ∀ pid' h', World.Holds ⟨s', w.procs.set pid p'⟩ pid' h' →
      h'.requestId = h.requestId → pid' = pid ∧ h' = h := by
    intro pid' h' hh' hid
    rcases (holds_set hp).mp hh' with ⟨rfl, hx⟩ | ⟨-, hold⟩
    · rw [hp'] at hx
      cases hx
      exact ⟨rfl, rfl⟩
    · exact absurd hid (hfree pid' h' hold)
  refine ⟨⟨r', hr', hc, hres⟩, ?_, ?_⟩
  · intro pid' h' hh' hid
    obtain ⟨-, rfl⟩ := hself pid' h' hh' hid
    refine ⟨rfl, ?_⟩
    cases hphase : h'.phase with
    | waiting => rfl
    | running => exact absurd hphase hph
    | ended => exact (by decide : Stage.claimed ≠ Stage.going)
  · intro pid₁ pid₂ h₁ h₂ hh₁ hh₂ hid₁ hid₂
    rw [(hself pid₁ h₁ hh₁ hid₁).1, (hself pid₂ h₂ hh₂ hid₂).1]

section
variable {n : Nat} {stage : Stage} (hsim : Sim w h.requestId (.held n stage))
    (hp : w.procs[pid]? = some p) (hh : p.hold = some h)
include hsim hp hh

theorem Sim.released (hp' : p'.hold = none) : World.Free ⟨s', w.procs.set pid p'⟩ h.requestId := by
  intro pid' h' hh' hid
  rcases (holds_set hp).mp hh' with ⟨rfl, hx⟩ | ⟨hne, hold⟩
  · rw [hp'] at hx
    cases hx
  · exact hne (hsim.2.2 pid' pid h' h hold ⟨p, hp, hh⟩ hid rfl)

/-- The holder goes on to another phase, and with it the ticket to another stage. -/
theorem Sim.moved {stage' : Stage} {phase : Phase}
    (hp' : p'.hold = none ∨ p'.hold = some { h with phase := phase }) (hat : phase.At stage') :
    Sim ⟨w.store, w.procs.set pid p'⟩ h.requestId (.held n stage') := by
  have hn : h.attempt = n := (hsim.2.1 pid h ⟨p, hp, hh⟩ rfl).1
  have hself : ∀ pid' h', World.Holds ⟨w.store, w.procs.set pid p'⟩ pid' h' →
      h'.requestId = h.requestId → pid' = pid ∧ h' = { h with phase := phase } := by
    intro pid' h' hh' hid
    rcases (holds_set hp).mp hh' with ⟨rfl, hx⟩ | ⟨hne, hold⟩
    · rcases hp' with hnone | hsome
      · rw [hnone] at hx
        cases hx
      · rw [hsome] at hx
        cases hx
        exact ⟨rfl, rfl⟩
    · exact absurd (hsim.2.2 pid' pid h' h hold ⟨p, hp, hh⟩ hid rfl) hne
  refine ⟨hsim.1, ?_, ?_⟩
  · intro pid' h' hh' hid
    obtain ⟨-, rfl⟩ := hself pid' h' hh' hid
    exact ⟨hn, hat⟩
  · intro pid₁ pid₂ h₁ h₂ hh₁ hh₂ hid₁ hid₂
    rw [(hself pid₁ h₁ hh₁ hid₁).1, (hself pid₂ h₂ hh₂ hid₂).1]

end

end OneProcess

/-- What a step does to the ticket of a request: one ticket step, and a failed result is taken
up again only from the re-run claim. -/
structure TicketStep (w w' : World) (es : List Event) (id : Nat) (t t' : Ticket) : Prop where
  step : Ticket.Step t (marks id es) t'
  sim : Sim w' id t'
  retried : ∀ n, t = .ended n false → t' ≠ t → w.AtRerunClaim id

theorem TicketStep.idle {w : World} {id : Nat} {t : Ticket} (hms : marks id es = [])
    (hsim : Sim w' id t) : TicketStep w w' es id t t :=
  ⟨hms ▸ .idle t, hsim, fun _ _ hne => absurd rfl hne⟩

section MoveCases
variable {w : World} {pid id : Nat} {p p' : Proc} {s' : Store} {t : Ticket}

variable {r : ApprovalRequest} {now : Time}

section
variable {h : Hold} (hw : WorldOk w) (hp : w.procs[pid]? = some p)
    (hr : w.store.requests[h.requestId]? = some r) (hs : r.status = .approved)
include hw hp hr hs

theorem claim_ticket (hn : r.resumedAt = none) (hp' : p'.hold = some h) (ha : h.attempt = 0)
    (hph : h.phase ≠ .running) (hsim : Sim w id t) :
    ∃ t', TicketStep w
      ⟨w.store.updateRequest h.requestId (·.claimedAt now), w.procs.set pid p'⟩ [] id t t' := by
  by_cases hid : id = h.requestId
  · subst hid
    have hrow : (w.store.updateRequest h.requestId (·.claimedAt now)).requests[h.requestId]? =
        some (r.claimedAt now) := by
      rw [← file_row, file_updateRequest_self, file_row, hr]; rfl
    have hok := (hw.files h.requestId).row r hr
    have ht := hsim.unclaimed hr hn
    subst ht
    have hc : (r.claimedAt now).Claimed h.attempt := ⟨hs, rfl, by rw [ha]; exact hok.first hn⟩
    have htaken := Sim.taken hp hsim.2 hrow hc (hok.no_result hn) hp' hph
    rw [ha] at htaken
    exact ⟨_, .claim, htaken, fun _ heq _ => by cases heq⟩
  · refine ⟨t, .idle rfl (hsim.frame_ne hp ?_ ?_ hid)⟩
    · rw [← file_row, file_updateRequest_ne _ _ hid, file_row]
    · intro h' hh'
      rw [hp'] at hh'
      cases hh'
      rfl

theorem reclaim_ticket (hfail : r.resumeResult.map resultOk = some false)
    (hs' : ∀ id, s'.file id = (w.store.updateRequest h.requestId (·.reclaimed)).file id)
    (hp' : p'.hold = some h) (ha : h.attempt = r.rerunCount + 1) (hph : h.phase ≠ .running)
    (hj : ∃ j target params, p = .rerunClaim j target params ∧ j.requestId = h.requestId)
    (hsim : Sim w id t) : ∃ t', TicketStep w ⟨s', w.procs.set pid p'⟩ [] id t t' := by
  by_cases hid : id = h.requestId
  · subst hid
    have hrow : s'.requests[h.requestId]? = some r.reclaimed := by
      rw [← file_row, hs' h.requestId, file_updateRequest_self, file_row, hr]; rfl
    have hset := ((hw.files h.requestId).row r hr).claimed_of_result hfail
    obtain ⟨result, hres, hbad⟩ := Option.map_eq_some_iff.mp hfail
    have ht := hsim.finished hr hres hset
    rw [hbad] at ht
    subst ht
    have hc : r.reclaimed.Claimed h.attempt := ⟨hs, hset, ha.symm⟩
    have htaken := Sim.taken hp hsim.2 hrow hc rfl hp' hph
    rw [ha] at htaken
    obtain ⟨j, target, params, rfl, hjid⟩ := hj
    exact ⟨_, .retry r.rerunCount, htaken,
      fun _ _ _ => ⟨j, target, params, List.mem_of_getElem? hp, hjid⟩⟩
  · refine ⟨t, .idle rfl (hsim.frame_ne hp ?_ ?_ hid)⟩
    · rw [← file_row, hs' id, file_updateRequest_ne _ _ hid, file_row]
    · intro h' hh'
      rw [hp'] at hh'
      cases hh'
      rfl

end

section
variable {h : Hold} (hp : w.procs[pid]? = some p) (hh : p.hold = some h)
include hp hh

theorem start_ticket {path : RunPath} {call : Call} (hwait : h.phase = .waiting)
    (hp' : p'.hold = some { h with phase := .running }) (hsim : Sim w id t) :
    ∃ t', TicketStep w ⟨w.store, w.procs.set pid p'⟩
      [.started h.requestId path h.attempt call] id t t' := by
  by_cases hid : id = h.requestId
  · subst hid
    obtain ⟨stage, rfl, hat⟩ := hsim.holder ⟨p, hp, hh⟩ rfl
    rw [hwait] at hat
    cases hat
    have hmark : marks h.requestId [.started h.requestId path h.attempt call] =
        [.start h.attempt] := by simp [marks, Event.mark]
    refine ⟨.held h.attempt .going, ?_, hsim.moved hp hh (.inr hp') rfl,
      fun _ heq _ => by cases heq⟩
    rw [hmark]
    exact .start h.attempt
  · have hmark : marks id [.started h.requestId path h.attempt call] = [] := by
      simp [marks, Event.mark, Ne.symm hid]
    refine ⟨t, .idle hmark (hsim.frame_ne hp rfl ?_ hid)⟩
    intro h' hh'
    rw [hp'] at hh'
    cases hh'
    rfl

theorem stop_ticket (hrun : h.phase = .running)
    (hp' : p'.hold = none ∨ p'.hold = some { h with phase := .ended }) (hsim : Sim w id t) :
    ∃ t', TicketStep w ⟨w.store, w.procs.set pid p'⟩ [.ended h.requestId h.attempt] id t t' := by
  by_cases hid : id = h.requestId
  · subst hid
    obtain ⟨stage, rfl, hat⟩ := hsim.holder ⟨p, hp, hh⟩ rfl
    rw [hrun] at hat
    cases hat
    have hmark : marks h.requestId [.ended h.requestId h.attempt] = [.stop h.attempt] := by
      simp [marks, Event.mark]
    have hover : Phase.ended.At .stopped := by
      intro hcontra
      cases hcontra
    refine ⟨.held h.attempt .stopped, ?_, hsim.moved hp hh hp' hover,
      fun _ heq _ => by cases heq⟩
    rw [hmark]
    exact .stop h.attempt
  · have hmark : marks id [.ended h.requestId h.attempt] = [] := by
      simp [marks, Event.mark, Ne.symm hid]
    refine ⟨t, .idle hmark (hsim.frame_ne hp rfl ?_ hid)⟩
    intro h' hh'
    rcases hp' with hnone | hsome
    · rw [hnone] at hh'
      cases hh'
    · rw [hsome] at hh'
      cases hh'
      rfl

theorem record_ticket {result : Dict} {es : List Event} (hover : h.phase = .ended)
    (he : ∀ id, marks id es = if h.requestId = id then [.result (resultOk result)] else [])
    (hsim : Sim w id t) :
    ∃ t', TicketStep w ⟨persistResumeResult h.requestId result w.store, w.procs.set pid .done⟩
      es id t t' := by
  by_cases hid : h.requestId = id
  · subst hid
    obtain ⟨stage, rfl, hat⟩ := hsim.holder ⟨p, hp, hh⟩ rfl
    rw [hover] at hat
    obtain ⟨r, hr, hc, -⟩ := hsim.1
    have hrow : ((persistResumeResult h.requestId result w.store).file h.requestId).row =
        some (r.withResult result) := by
      unfold persistResumeResult
      rw [file_updateRequest_self, file_row, hr]
      rfl
    refine ⟨.ended h.attempt (resultOk result), ?_, ⟨⟨r.withResult result, result, hrow,
      ⟨hc.status, hc.resumedAt, hc.rerunCount⟩, rfl, rfl⟩, hsim.released hp hh rfl⟩,
      fun _ heq _ => by cases heq⟩
    rw [he h.requestId, if_pos rfl]
    exact .finish _ hat _
  · refine ⟨t, .idle (by rw [he id, if_neg hid])
      (hsim.frame_ne hp ?_ (fun _ hh' => by cases hh') (Ne.symm hid))⟩
    rw [← file_row]
    unfold persistResumeResult
    rw [file_updateRequest_ne _ _ (Ne.symm hid), file_row]

end

/-- A mint spends the ticket of the approval it consumes, in any world where nobody holds more
than before. -/
theorem spend_ticket {w' : World} {call : Call} {id' : Nat} {approval : ApprovalRequest}
    (hf : FileOk id' (w.store.file id')) (hr : w.store.requests[id']? = some r)
    (hs' : r.status = .approved) (hread : r.resumedAt = none → r = approval)
    (hs : consumeRemoteWriteApproval now id' approval w.store = some w'.store)
    (hhold : ∀ pid h, w'.Holds pid h → w.Holds pid h) (hsim : Sim w id t) :
    ∃ t', TicketStep w w' [.minted id' call] id t t' := by
  obtain ⟨r', hr', hn, hstore⟩ := consumeRemoteWriteApproval_some hs
  rw [hr] at hr'
  cases hr'
  rw [← hread hn] at hstore
  by_cases hid : id = id'
  · subst hid
    have ht := hsim.unclaimed hr hn
    subst ht
    have hmark : marks id [.minted id call] = [.spend] := by simp [marks, Event.mark]
    have hres : r.resumeResult = none := (hf.row r hr).no_result hn
    refine ⟨.spent, ?_, ⟨⟨r.claimedAt now, r.rerunCount, ?_, ⟨hs', rfl, rfl⟩, hres⟩, ?_⟩,
      fun _ heq _ => by cases heq⟩
    · rw [hmark]
      exact .spend
    · rw [hstore, ← file_row, mint_file_self hr]
    · intro pid' h' hh'
      exact hsim.2 pid' h' (hhold pid' h' hh')
  · have hmark : marks id [.minted id' call] = [] := by
      simp [marks, Event.mark, Ne.symm hid]
    have hrow : w'.store.requests[id]? = w.store.requests[id]? := by
      rw [hstore, ← file_row, mint_file_ne r hid, file_row]
    refine ⟨t, .idle hmark (hsim.frame (fun r hr _ => by rw [hrow]; exact hr)
      (fun r hr => .inl (hrow ▸ hr)) ?_)⟩
    intro pid' h' hh' _
    exact ⟨h', hhold pid' h' hh', Hold.Onward.refl h'⟩

theorem mint_ticket {call : MintCall} {id' : Nat} {approval : ApprovalRequest} (hw : WorldOk w)
    (hp : w.procs[pid]? = some (.mintClaim call id' approval))
    (hs : consumeRemoteWriteApproval now id' approval w.store = some s') (hsim : Sim w id t) :
    ∃ t', TicketStep w ⟨s', w.procs.set pid .done⟩ [.minted id' call.call] id t t' := by
  obtain ⟨r, hr, hs', hread⟩ := hw.mints _ (List.mem_of_getElem? hp)
  refine spend_ticket (hw.files id') hr hs' hread hs ?_ hsim
  intro pid' h' hh'
  rcases (holds_set hp).mp hh' with ⟨-, hx⟩ | ⟨-, hold⟩
  · cases hx
  · exact hold

end MoveCases

theorem Move.ticket {w : World} {pid : Nat} {p p' : Proc} {s' : Store} (hw : WorldOk w)
    (hp : w.procs[pid]? = some p) (h : Move w.store p s' p' es) {id : Nat} {t : Ticket}
    (hsim : Sim w id t) : ∃ t', TicketStep w ⟨s', w.procs.set pid p'⟩ es id t t' := by
  cases h with
  | quiet hf hrows hh hm he =>
    refine ⟨t, .idle (he id) (hsim.frame (fun r hr _ => ?_) (fun r hr => .inl ?_) ?_)⟩
    · rw [hrows]; exact hr
    · rw [hrows] at hr; exact hr
    · intro pid' h' hh' hid
      rcases (holds_set hp).mp hh' with ⟨rfl, hp'⟩ | ⟨-, hold⟩
      · obtain ⟨h, hph, ho⟩ := hh h' hp'
        exact ⟨h, ⟨p, hp, hph⟩, ho⟩
      · exact ⟨h', hold, Hold.Onward.refl h'⟩
  | claim hr hs hn hp' ha hph => exact claim_ticket hw hp hr hs hn hp' ha hph hsim
  | reclaim hr hs hfail hs' hp' ha hph hj =>
    exact reclaim_ticket hw hp hr hs hfail hs' hp' ha hph hj hsim
  | start hh hwait hp' => exact start_ticket hp hh hwait hp' hsim
  | stop hh hrun hp' _ => exact stop_ticket hp hh hrun hp' hsim
  | record hh hover he => exact record_ticket hp hh hover he hsim
  | mint heq hs =>
    subst heq
    exact mint_ticket hw hp hs hsim

/-! ## Every action of the queue -/

/-- A process that claims nothing and is about to claim nothing. -/
structure Proc.Idle (p : Proc) : Prop where
  hold : p.hold = none
  first : p.First
  mint : ∀ call id approval, p ≠ .mintClaim call id approval

/-- What one action does to the world. -/
inductive WorldMove (w : World) : World → List Event → Prop where
  | queue {w' : World} {es : List Event}
    (hf : ∀ id, QueueStep id (w.store.file id) (w'.store.file id))
    (hp : ∀ (pid : Nat) (p : Proc), w'.procs[pid]? = some p → w.procs[pid]? = some p ∨ p.Idle)
    (he : ∀ id, marks id es = []) : WorldMove w w' es
  | proc {pid : Nat} {p p' : Proc} {s' : Store} {es : List Event} (hp : w.procs[pid]? = some p)
    (hfirst : p'.First) (hm : Move w.store p s' p' es) :
    WorldMove w ⟨s', w.procs.set pid p'⟩ es

theorem WorldMove.stay (w : World) : WorldMove w w [] :=
  .queue (fun _ => .refl _ _) (fun _ _ h => .inl h) (fun _ => rfl)

section
variable {w : World} {s' : Store} (hf : ∀ id, QueueStep id (w.store.file id) (s'.file id))
include hf

theorem WorldMove.tables (he : ∀ id, marks id es = []) : WorldMove w ⟨s', w.procs⟩ es :=
  .queue hf (fun _ _ h => .inl h) he

theorem WorldMove.spawn {p : Proc} (hp : p.Idle) (he : ∀ id, marks id es = []) :
    WorldMove w (w.spawn s' p) es := by
  refine .queue hf ?_ he
  intro pid q hq
  rcases getElem?_snoc hq with hold | ⟨-, rfl⟩
  · exact .inl hold
  · exact .inr hp

end

theorem worldStep_move (D : Deployment) {w : World} (hw : WorldOk w) (a : Act) :
    WorldMove w (worldStep D w a).1 (worldStep D w a).2 := by
  have hrefl : ∀ id, QueueStep id (w.store.file id) (w.store.file id) := fun _ => .refl _ _
  cases a with
  | create args waits fqdn =>
    simp only [worldStep]
    split
    · exact .stay w
    · rename_i id s' hc
      have hf := createPendingRequest_file hw.files hc
      have he : ∀ id', marks id' (if w.store.requests.length ≤ id then
          [Event.parked id args (args.targetId.bind fun id =>
            (w.store.resolveTargetById args.operator.tenantId id).map (·.settings))]
          else []) = [] := by
        intro id'
        split <;> rfl
      split
      · exact .spawn hf ⟨rfl, trivial, by simp⟩ he
      · exact .tables hf he
  | approve settings clock id operator params reason auth =>
    simp only [worldStep]
    split
    · exact .stay w
    · rename_i hc
      exact .spawn (approveRequest_file hc) ⟨rfl, trivial, by simp⟩ (fun _ => rfl)
  | reject settings decidedNow auditNow id operator reason =>
    simp only [worldStep]
    split
    · exact .stay w
    · rename_i hc
      exact .tables (rejectRequest_file hc) (fun _ => rfl)
  | withdraw withdrawnNow auditNow id operator reason =>
    simp only [worldStep]
    split
    · exact .stay w
    · rename_i hc
      exact .tables (withdrawRequest_file hc) (fun _ => rfl)
  | expireStale operator cutoff auditNow defaultTtl locked =>
    simp only [worldStep]
    split
    · exact .stay w
    · rename_i hc
      exact .tables (expireStaleRequests_file hc) (fun _ => rfl)
  | expireOlderRelease settings operator releaseId cutoff auditNow locked =>
    simp only [worldStep]
    split
    · exact .stay w
    · rename_i hc
      exact .tables (expireOlderReleaseRequests_file hc) (fun _ => rfl)
  | addTarget target | editTarget targetId settings | deleteTarget targetId =>
      exact .tables (fun id => .of_eq rfl) (fun _ => rfl)
  | resume operator id =>
    simp only [worldStep]
    split
    · exact .stay w
    · exact .spawn hrefl ⟨rfl, trivial, by simp⟩ (fun _ => rfl)
  | rerun operator id params | mint call =>
      exact .spawn hrefl ⟨rfl, trivial, by simp⟩ (fun _ => rfl)
  | advance pid inp =>
    simp only [worldStep]
    split
    · exact .stay w
    · rename_i p hp
      -- the only action that moves a process; the others start or end one, or write the tables
      have hfirst := hw.first p (List.mem_of_getElem? hp)
      exact .proc hp (procStep_first D inp w.store hfirst) (procStep_move D inp w.store hfirst)
  | crash pid =>
    refine .queue hrefl ?_ (fun _ => rfl)
    intro pid' q hq
    change (w.procs.set pid .done)[pid']? = some q at hq
    rw [List.getElem?_set] at hq
    split at hq
    · split at hq
      · cases hq
        exact .inr ⟨rfl, trivial, by simp⟩
      · cases hq
    · exact .inl hq

/-! ## Every history -/

/-- The invariant of histories: the world is in order, and every request's part of the history
is a ticket history that ends where the world shows the request. -/
structure Exclusive (c : Config World Event) : Prop where
  world : WorldOk c.state
  tickets : ∀ id, ∃ t, Ticket.Run (marks id c.events) t ∧ Sim c.state id t

section
variable {w : World} (h : WorldMove w w' es) (hw : WorldOk w)
include h hw

theorem WorldMove.file (hsim : ∀ id, ∃ t, Sim w id t) (id : Nat) :
    FileStep id (w.store.file id) (w'.store.file id) := by
  cases h with
  | queue hf _ _ => exact .queue (hf id)
  | proc hp _ hm => exact hm.file hw hsim hp id

theorem WorldMove.ok (hsim : ∀ id, ∃ t, Sim w id t) : WorldOk w' := by
  have hfile := h.file hw hsim
  refine ⟨fun id => (hfile id).ok (hw.files id), ?_, ?_⟩
  · intro q hq
    cases h with
    | queue _ hp _ =>
      obtain ⟨pid, hpid⟩ := List.mem_iff_getElem?.mp hq
      rcases hp pid q hpid with hold | hidle
      · exact hw.first q (List.mem_of_getElem? hold)
      · exact hidle.first
    | proc hp hfirst _ =>
      rcases List.mem_or_eq_of_mem_set hq with hold | rfl
      · exact hw.first q hold
      · exact hfirst
  · intro q hq
    cases h with
    | queue _ hp _ =>
      obtain ⟨pid, hpid⟩ := List.mem_iff_getElem?.mp hq
      rcases hp pid q hpid with hold | hidle
      · exact (hw.mints q (List.mem_of_getElem? hold)).step hw.files hfile
      · exact MintReads.of_not_mint hidle.mint
    | @proc pid p p' s' es hp _ hm =>
      rcases List.mem_or_eq_of_mem_set hq with hold | rfl
      · exact (hw.mints q hold).step hw.files hfile
      · -- only a mint's own read leads to a mint claim
        cases hm with
        | quiet _ hrows _ hmint _ =>
          cases q with
          | mintClaim call id approval =>
            obtain ⟨hr, hs⟩ := hmint call id approval rfl
            exact ⟨approval, by rw [hrows]; exact hr, hs, fun _ => rfl⟩
          | _ => trivial
        | claim _ _ _ hh _ _ => exact MintReads.of_not_mint (by rintro _ _ _ rfl; cases hh)
        | reclaim _ _ _ _ hh _ _ _ => exact MintReads.of_not_mint (by rintro _ _ _ rfl; cases hh)
        | start _ _ hh => exact MintReads.of_not_mint (by rintro _ _ _ rfl; cases hh)
        | stop _ _ _ hm => exact MintReads.of_not_mint hm
        | record _ _ _ => trivial
        | mint _ _ => trivial

theorem WorldMove.ticket {id : Nat} {t : Ticket} (hsim : Sim w id t) :
    ∃ t', TicketStep w w' es id t t' := by
  cases h with
  | queue hf hp he =>
    have hpend : ∀ r, (w.store.file id).row = some r → r.status = .pending → r.resumedAt = none :=
      fun r hr hs => (((hw.files id).row r hr).pending hs).resumedAt
    obtain ⟨hkeep, hnew⟩ := (hf id).quiet hpend
    refine ⟨t, .idle (he id)
      (hsim.frame (fun r hr hs => hkeep r hr (by rw [hs]; decide)) hnew ?_)⟩
    rintro pid h' ⟨q, hq, hh⟩ hid
    rcases hp pid q hq with hold | hidle
    · exact ⟨h', ⟨q, hold, hh⟩, Hold.Onward.refl h'⟩
    · rw [hidle.hold] at hh
      cases hh
  | proc hp _ hm => exact hm.ticket hw hp hsim

end

variable {c : Config World Event}

theorem Exclusive.sims (h : Exclusive c) (id : Nat) : ∃ t, Sim c.state id t := by
  obtain ⟨t, -, ht⟩ := h.tickets id
  exact ⟨t, ht⟩

variable (D : Deployment)

/-- One action of the queue is a ticket step on every request. -/
theorem exclusive_next (c : Config World Event) (a : Act) (h : Exclusive c) :
    Exclusive ((queue D).next c a) := by
  have hmove := worldStep_move D h.world a
  refine ⟨hmove.ok h.world h.sims, ?_⟩
  intro id
  obtain ⟨t, hrun, hsim⟩ := h.tickets id
  obtain ⟨t', hstep⟩ := hmove.ticket h.world hsim
  refine ⟨t', ?_, hstep.sim⟩
  rw [Machine.next_events, marks_append]
  exact hrun.snoc hstep.step

theorem exclusive_begin : Exclusive (queue D).begin_ := by
  have hrow : ∀ id, (Store.empty.file id).row = none := by simp [Store.empty]
  refine ⟨⟨?_, fun p hp => (by cases hp), fun p hp => (by cases hp)⟩, ?_⟩
  · intro id
    refine ⟨fun _ => ⟨rfl, rfl⟩, fun r hr => ?_, fun r hr => ?_, fun r hr => ?_⟩
    all_goals exact absurd ((hrow id).symm.trans hr) (by simp)
  · intro id
    refine ⟨.unused, .nil, fun r hr => ?_, ?_⟩
    · exact absurd ((hrow id).symm.trans hr) (by simp)
    · rintro pid h ⟨p, hp, -⟩
      cases hp

/-- Consuming an approval outside the queue's own processes keeps the invariant too: the caller
read the row when it was approved, and it is the row as long as nobody used it. -/
theorem Exclusive.consume (h : Exclusive c) {call : MintCall} {id : Nat}
    {approval : ApprovalRequest} {now : Time} {s' : Store}
    (hread : MintReads c.state.store (.mintClaim call id approval))
    (hs : consumeRemoteWriteApproval now id approval c.state.store = some s') :
    (∀ id', FileStep id' (c.state.store.file id') (s'.file id')) ∧
      Exclusive ⟨⟨s', c.state.procs⟩, c.events ++ [.minted id call.call]⟩ := by
  obtain ⟨r, hr, hs', hread⟩ := hread
  obtain ⟨r', hr', hn, hstore⟩ := consumeRemoteWriteApproval_some hs
  rw [hr] at hr'
  cases hr'
  have hfile : ∀ id', FileStep id' (c.state.store.file id') (s'.file id') := by
    intro id'
    rw [hstore, ← hread hn]
    exact mint_file hr hs' hn id'
  refine ⟨hfile, ⟨?_, h.world.first, ?_⟩, ?_⟩
  · exact fun id' => (hfile id').ok (h.world.files id')
  · exact fun p hp => (h.world.mints p hp).step h.world.files hfile
  · intro id'
    obtain ⟨t, hrun, hsim⟩ := h.tickets id'
    have hspent : ∃ t', TicketStep c.state ⟨s', c.state.procs⟩ [.minted id call.call] id' t t' :=
      spend_ticket (h.world.files id) hr hs' hread hs (fun _ _ hh => hh) hsim
    obtain ⟨t', hstep⟩ := hspent
    refine ⟨t', ?_, hstep.sim⟩
    rw [marks_append]
    exact hrun.snoc hstep.step

/-- The simulation: whatever the interleaving, every request behaves as a ticket. -/
theorem exclusive_of_reachable (h : (queue D).Reachable c) : Exclusive c :=
  (queue D).reach_induct (exclusive_begin D) (exclusive_next D) h

theorem next_file (h : Exclusive c) (a : Act) (id : Nat) :
    FileStep id (c.state.store.file id) (((queue D).next c a).state.store.file id) :=
  (worldStep_move D h.world a).file h.world h.sims id

/-- A row stays, through any number of actions, a later version of itself. -/
theorem run_later (h : Exclusive c) (acts : List Act) {id : Nat}
    (hr : c.state.store.requests[id]? = some r) :
    ∃ r', ((queue D).run c acts).state.store.requests[id]? = some r' ∧ Later r r' := by
  induction acts generalizing c r with
  | nil => exact ⟨r, hr, Later.refl r⟩
  | cons a acts ih =>
    obtain ⟨r₁, hr₁, hl₁⟩ := (next_file D h a id).later hr
    obtain ⟨r₂, hr₂, hl₂⟩ := ih (exclusive_next D c a h) hr₁
    exact ⟨r₂, hr₂, hl₁.trans hl₂⟩

end Meho.Approval
