import Meho.Announce.ClaimLife
import Mathlib.Data.List.Nodup

/- What a run of calls writes.

A call that repeats a stored step finds its row whatever else happens (`Repeated`), and so it
adds none. A call without a row of its own has inserted none (`NoRow`), and a claim error is
such a place. The script writes an entry only when its marker is gone (`Appended`). -/
namespace Meho.Announce
open Meho.Lib

/-! ## Repeated steps -/

/-- Before its transaction has ended, with a row or with an error. -/
def CallAt.Pending : CallAt → Prop
  | .called | .looked | .locked _ | .unkeyed _ | .opened _ | .numbered .. | .collided => True
  | _ => False

instance (p : CallAt) : Decidable p.Pending := by
  cases p <;> unfold CallAt.Pending <;> infer_instance

/-- Where a call that repeats `r` may be. -/
def CallAt.Repeated (r : AgentAnnouncement) : CallAt → Prop
  | .stored step | .delivering step | .written step .. =>
    step.event = r.event ∧ step.replayed = true
  | .answered result => result.event = r.event ∧ result.replayed = true
  | .raised error => ∀ code, error ≠ .claim code
  | _ => True

theorem CallAt.Pending.repeated {p : CallAt} (h : p.Pending) (r : AgentAnnouncement) :
    p.Repeated r := by
  cases p <;> trivial

section Repeat
variable {s : Publishing} {r : AgentAnnouncement} {c : Call}

section
variable (h : Alive s) (hr : r ∈ s.core) (hrep : Repeats r c)
include h hr hrep

theorem findByKey_repeats :
    ∃ step, findByKey s.rows c.event c.key = .ok (some step) ∧ step.event = r.event ∧
      step.replayed = true := by
  obtain ⟨key, hkey, hhas, hsame⟩ := hrep
  obtain ⟨howner, hrkey⟩ := hasKey_iff.mp hhas
  have hone : ∀ r' ∈ s.rows, r'.hasKey c.event key = true → r'.event = r.event := by
    intro r' hr' hhas'
    obtain ⟨howner', hrkey'⟩ := hasKey_iff.mp hhas'
    have heq := h.rows.keys r hr r'.core (Publishing.core_mem hr') (by rw [hrkey]; rfl)
      (howner.trans howner'.symm) (hrkey.trans hrkey'.symm)
    rw [heq]
    rfl
  cases hfound : findByKey s.rows c.event c.key with
  | error code =>
    obtain ⟨key', hkey', r', hr', hhas', hdiffers⟩ := findByKey_error hfound
    obtain rfl := Option.some.inj (hkey.symm.trans hkey')
    rw [hone r' hr' hhas', hsame] at hdiffers
    cases hdiffers
  | ok found =>
    cases found with
    | none =>
      obtain ⟨r', hr', hevent, hkey', -⟩ := Publishing.mem_core hr
      have hno := findByKey_none hfound hkey r' hr'
      have hyes : r'.hasKey c.event key = true :=
        hasKey_iff.mpr ⟨hevent ▸ howner, hkey'.trans hrkey⟩
      rw [hyes] at hno
      cases hno
    | some step =>
      obtain ⟨key', hkey', r', hr', hhas', -, hevent, -, hreplayed⟩ := findByKey_some hfound
      obtain rfl := Option.some.inj (hkey.symm.trans hkey')
      exact ⟨step, rfl, hevent.trans (hone r' hr' hhas'), hreplayed⟩

theorem looked_repeats (fresh : CallAt) :
    (Publishing.looked (findByKey s.rows c.event c.key) fresh).Repeated r := by
  obtain ⟨step, hfound, hevent, hreplayed⟩ := findByKey_repeats h hr hrep
  rw [hfound]
  exact ⟨hevent, hreplayed⟩

theorem lockStart_repeats (hcalled : c.place = .called) (hphase : c.event.phase ≠ .start) :
    (s.lockStart c).Repeated r := by
  obtain ⟨key, -, hhas, hsame⟩ := hrep
  obtain ⟨howner, -⟩ := hasKey_iff.mp hhas
  obtain ⟨hrun, hphases, hstart | hclaim⟩ := sameStep_fields hsame
  · exact absurd hstart hphase
  obtain ⟨start, hmem, hbegun, hclaim', howner', hrun'⟩ :=
    h.rows.begun r hr fun hs => hphase (hphases.symm.trans hs)
  unfold Publishing.lockStart
  split
  · rename_i hnone
    obtain ⟨start', hmem', hevent, -⟩ := Publishing.mem_core hmem
    refine absurd ?_ (List.find?_eq_none.mp hnone start' hmem')
    rw [ofClaim_iff, hevent]
    exact ⟨(h.rows.trusted start hmem).1, hclaim'.trans hclaim, hbegun⟩
  · rename_i found hfound
    split
    · rw [hcalled]
      trivial
    · split
      · rename_i hother
        obtain ⟨-, hclaimFound, hphaseFound⟩ := ofClaim_iff.mp (List.find?_some hfound)
        have heq : found.core = start :=
          h.rows.starts _ (Publishing.core_mem (List.mem_of_find?_eq_some hfound)) start hmem
            hphaseFound hbegun (hclaimFound.trans (hclaim'.trans hclaim).symm)
        have hevent : found.event = start.event := by rw [← heq]; rfl
        rw [hevent, howner', hrun', howner, hrun] at hother
        simp at hother
      · trivial

end

theorem statement_repeats (h : Alive s) {i : Nat} (hc : s.calls[i]? = some c) (hr : r ∈ s.core)
    (hrep : Repeats r c) (hplace : c.place.Repeated r) : (s.statement c).Repeated r := by
  have hok := h.calls i c hc
  cases hp : c.place with
  | called =>
    simp only [Publishing.statement, hp]
    split
    · intro code heq
      cases heq
    · split
      · exact looked_repeats h hr hrep _
      · rename_i hphase
        exact lockStart_repeats h hr hrep hp hphase
  | looked =>
    simp only [Publishing.statement, hp]
    split <;> trivial
  | locked start | collided =>
    simp only [Publishing.statement, hp]
    exact looked_repeats h hr hrep _
  | unkeyed start | opened start =>
    simp only [CallOk, hp] at hok
    exact absurd hrep (hok.fresh r hr)
  | stored step =>
    rw [hp] at hplace
    simp only [Publishing.statement, hp]
    unfold Publishing.lockStored
    split
    · exact ⟨hplace.1, rfl⟩
    · split
      · intro code heq
        cases heq
      · split
        · rw [hp]
          exact hplace
        · split
          · exact hplace
          · exact hplace
  | numbered | delivering | written | answered | raised =>
    rw [hp] at hplace
    simp only [Publishing.statement, hp]
    exact hplace

/-- Its own row would have the key of the stored one. -/
theorem Alive.repeats_not_insert (h : Alive s) {i n : Nat} {start : Option Nat}
    (hc : s.calls[i]? = some c) (hn : c.place = .numbered start n) (hr : r ∈ s.core)
    (hfree : ∀ r ∈ s.rows, (AgentAnnouncement.mk c.event c.key none (some n)).conflicts r = false) :
    ¬ Repeats r c := by
  rintro ⟨key, hkey, hhas, -⟩
  obtain ⟨-, htrusted, -⟩ := h.numbered hc hn
  obtain ⟨howner, hrkey⟩ := hasKey_iff.mp hhas
  have hnew := (conflicts_eq_false (core_free hfree r hr)).2.1 (Bool.and_eq_true_iff.mp htrusted).2
    (by rw [hkey]; rfl) howner
  exact hnew (hrkey.trans hkey.symm)

end Repeat

/-- Call `i` repeats `r`, wherever it is. -/
def Repeating (i : Nat) (r : AgentAnnouncement) (s : Publishing) : Prop :=
  r ∈ s.core ∧ ∃ c, s.calls[i]? = some c ∧ Repeats r c ∧ c.place.Repeated r

/-- Whether call `i` inserted a row. -/
def insertedBy (i : Nat) : PublishEvent → Bool
  | .inserted j _ => j = i
  | _ => false

theorem runScript_quiet (s : Publishing) (id j : Nat) :
    ∀ e ∈ (s.runScript id).2.2.2, insertedBy j e = false := by
  unfold Publishing.runScript
  split
  · intro e he
    cases he
  · intro e he
    rw [List.mem_singleton.mp he]
    rfl

variable {s' : Publishing} {i : Nat}

theorem Repeating.moved {s : Publishing} {j : Nat} {r : AgentAnnouncement} {c : Call}
    {place : CallAt} (h : Repeating i r s) (hc : s.calls[j]? = some c)
    (hcalls : s'.calls = (s.goto j c place).calls) (hcore : r ∈ s'.core)
    (hplace : j = i → Repeats r c → c.place.Repeated r → place.Repeated r) : Repeating i r s' := by
  obtain ⟨-, d, hd, hrep, hat⟩ := h
  refine ⟨hcore, ?_⟩
  rw [hcalls]
  by_cases hij : j = i
  · subst hij
    obtain rfl := Option.some.inj (hc.symm.trans hd)
    exact ⟨_, Parties.moveOne_at hc _, hrep, hplace rfl hrep hat⟩
  · exact ⟨d, (Parties.moveOne_other s.calls hij _).trans hd, hrep, hat⟩

variable {es : List PublishEvent}

theorem Repeating.step {s : Publishing} {r : AgentAnnouncement} (h : Repeating i r s)
    (halive : Alive s) (hs : CallStep s s' es) :
    Repeating i r s' ∧ ∀ e ∈ es, insertedBy i e = false := by
  have hnone : ∀ e ∈ ([] : List PublishEvent), insertedBy i e = false := fun e he => by cases he
  obtain ⟨hr, hcall⟩ := id h
  cases hs with
  | idle => exact ⟨h, hnone⟩
  | expire =>
    refine ⟨h, fun e he => ?_⟩
    rw [List.mem_singleton.mp he]
    rfl
  | publish event key =>
    obtain ⟨c, hc, hrest⟩ := hcall
    have hlt : i < s.calls.length := (List.getElem?_eq_some_iff.mp hc).1
    exact ⟨⟨hr, c, (List.getElem?_append_left hlt).trans hc, hrest⟩, hnone⟩
  | @goto j c place hc hgoes =>
    refine ⟨h.moved hc rfl hr fun hij hrep hat => ?_, hnone⟩
    cases hgoes with
    | statement => exact statement_repeats halive hc hr hrep hat
    | collide => trivial
    | fail =>
      intro code heq
      cases heq
  | @insert j n start c place hc hn hfree hplace =>
    -- the call that inserts is another one
    have hno : ¬ Repeats r c := halive.repeats_not_insert hc hn hr hfree
    refine ⟨h.moved hc rfl ?_ fun _ hrep => absurd hrep hno, fun e he => ?_⟩
    · show r ∈ List.map _ _
      rw [core_snoc]
      exact List.mem_append_left _ hr
    · rw [List.mem_singleton.mp he]
      refine decide_eq_false fun hij => ?_
      obtain ⟨d, hd, hrep, -⟩ := hcall
      rw [← hij] at hd
      obtain rfl := Option.some.inj (hc.symm.trans hd)
      exact hno hrep
  | @script entry wrote j c stored place s₁ _ hc hdelivering hrun hplace =>
    -- the delivery script touches markers and streams only
    have hsame : s₁.calls = s.calls ∧ s₁.rows = s.rows ∧
        ∀ e ∈ es, insertedBy i e = false := by
      rcases hrun with heq | ⟨rfl, rfl⟩
      · obtain ⟨rfl, rfl⟩ := Prod.mk.inj heq
        exact ⟨rfl, rfl, hnone⟩
      · exact ⟨runScript_calls s _, (runScript_rows s _).1, runScript_quiet s _ i⟩
    obtain ⟨hcalls, hrows, hquiet⟩ := hsame
    have hmoved : (s₁.goto j c place).calls = (s.goto j c place).calls := by
      show Parties.moveOne s₁.calls j _ = Parties.moveOne s.calls j _
      rw [hcalls]
    refine ⟨h.moved hc hmoved ?_ fun _ _ hat => ?_, hquiet⟩
    · show r ∈ s₁.rows.map AgentAnnouncement.core
      rw [hrows]
      exact hr
    · rw [hdelivering] at hat
      rcases hplace with rfl | rfl <;> exact hat
  | @mark j entry wrote committed c stored hc hwritten =>
    refine ⟨h.moved hc rfl ?_ fun _ _ hat => ?_, hnone⟩
    · show r ∈ List.map _ (if committed = true then _ else s.rows)
      split
      · rw [core_mark]
        exact hr
      · exact hr
    · rw [hwritten] at hat
      exact hat

theorem countP_quiet (h : ∀ e ∈ es, insertedBy i e = false) : es.countP (insertedBy i) = 0 :=
  List.countP_eq_zero.mpr fun e he => Bool.eq_false_iff.mp (h e he)

theorem repeating_run {r : AgentAnnouncement} (acts : List PublishAction)
    {cfg : Config Publishing PublishEvent} (halive : Alive cfg.state) (h : Repeating i r cfg.state) :
    Repeating i r (publishing.run cfg acts).state ∧
      (publishing.run cfg acts).events.countP (insertedBy i) = cfg.events.countP (insertedBy i) := by
  have hrun := publishing.run_induct
    (P := fun c => Alive c.state ∧ Repeating i r c.state ∧
      c.events.countP (insertedBy i) = cfg.events.countP (insertedBy i))
    (fun c a ⟨ha, hrep, hcount⟩ => ?_) ⟨halive, h, rfl⟩ acts
  · exact hrun.2
  · have hs := callStep_step c.state a
    obtain ⟨hrep', hquiet⟩ := hrep.step ha hs
    refine ⟨ha.step hs, hrep', ?_⟩
    show (c.events ++ (c.state.step a).2).countP (insertedBy i) = _
    rw [List.countP_append, hcount, countP_quiet hquiet, Nat.add_zero]

/-! ## Rows of a call -/

/-- A call at such a place has added no row. -/
def CallAt.noRow : CallAt → Bool
  | .stored step | .delivering step | .written step .. => step.replayed
  | .answered result => result.replayed
  | .raised error => error ≠ .failed
  | _ => true

theorem CallAt.Pending.noRow {p : CallAt} (h : p.Pending) : p.noRow = true := by
  cases p <;> first | rfl | exact h.elim

/-- A call without a row of its own, and one that was not made yet, has inserted none. -/
def NoRow (s : Publishing) (es : List PublishEvent) : Prop :=
  ∀ i : Nat, (∀ c, s.calls[i]? = some c → c.place.noRow = true) →
    es.countP (insertedBy i) = 0

/-- No statement makes a call forget its row. -/
theorem statement_noRow {s : Publishing} {c : Call} (hok : CallOk s.core s.lastSeq c)
    (h : (s.statement c).noRow = true) : c.place.noRow = true := by
  cases hp : c.place with
  | stored step =>
    simp only [CallOk, hp] at hok
    simp only [Publishing.statement, hp] at h
    unfold Publishing.lockStored at h
    split at h
    · rename_i hdelivered
      exact hok.2 hdelivered
    · split at h
      · cases h
      · split at h
        · rw [hp] at h
          exact h
        · split at h
          · exact h
          · exact h
  | delivering | written | answered | raised =>
    simp only [Publishing.statement, hp] at h
    exact h
  | called | looked | locked | unkeyed | opened | numbered | collided => rfl

variable {before : List PublishEvent}

theorem NoRow.moved {s : Publishing} (h : NoRow s before) {c : Call} {place : CallAt}
    (hc : s.calls[i]? = some c) (hcalls : s'.calls = (s.goto i c place).calls)
    (hplace : place.noRow = true → c.place.noRow = true)
    (hes : ∀ j, (j = i → place.noRow = true) → ∀ e ∈ es, insertedBy j e = false) :
    NoRow s' (before ++ es) := by
  intro j hj
  have hnew : j = i → place.noRow = true := fun hji =>
    hj { c with place } (by rw [hcalls, hji]; exact Parties.moveOne_at hc _)
  rw [List.countP_append, countP_quiet (hes j hnew), Nat.add_zero]
  refine h j fun d hd => ?_
  by_cases hji : j = i
  · subst hji
    obtain rfl := Option.some.inj (hc.symm.trans hd)
    exact hplace (hnew rfl)
  · exact hj d (by rw [hcalls]; exact (Parties.moveOne_other s.calls (Ne.symm hji) _).trans hd)

theorem NoRow.step {s : Publishing} (h : NoRow s before) (halive : Alive s) (hs : CallStep s s' es) :
    NoRow s' (before ++ es) := by
  have hnone : ∀ (j : Nat), ∀ e ∈ ([] : List PublishEvent), insertedBy j e = false :=
    fun _ e he => by cases he
  cases hs with
  | idle =>
    rw [List.append_nil]
    exact h
  | expire =>
    intro j hj
    rw [List.countP_append, h j hj]
    rfl
  | publish event key =>
    rw [List.append_nil]
    intro j hj
    refine h j fun c hc => hj c ?_
    exact (List.getElem?_append_left (List.getElem?_eq_some_iff.mp hc).1).trans hc
  | @goto i c place hc hgoes =>
    refine h.moved hc rfl (fun hno => ?_) fun j _ => hnone j
    cases hgoes with
    | statement => exact statement_noRow (halive.calls i c hc) hno
    | collide hp =>
      rw [hp]
      rfl
    | fail => cases hno
  | @insert i n start c place hc hn hfree hplace =>
    -- the call that inserts does not stand at a place without a row
    have hown : place.noRow = false := by rcases hplace with rfl | rfl <;> rfl
    refine h.moved hc rfl (fun hno => ?_) fun j hj e he => ?_
    · rw [hn]
      rfl
    · rw [List.mem_singleton.mp he]
      refine decide_eq_false fun hij => ?_
      have hno := hj hij.symm
      rw [hown] at hno
      cases hno
  | @script entry wrote i c stored place s₁ _ hc hdelivering hrun hplace =>
    have hquiet : s₁.calls = s.calls ∧ ∀ j, ∀ e ∈ es, insertedBy j e = false := by
      rcases hrun with heq | ⟨rfl, rfl⟩
      · obtain ⟨rfl, rfl⟩ := Prod.mk.inj heq
        exact ⟨rfl, hnone⟩
      · exact ⟨runScript_calls s _, fun j => runScript_quiet s _ j⟩
    have hmoved : (s₁.goto i c place).calls = (s.goto i c place).calls := by
      show Parties.moveOne s₁.calls i _ = Parties.moveOne s.calls i _
      rw [hquiet.1]
    refine h.moved hc hmoved (fun hno => ?_) fun j _ => hquiet.2 j
    rw [hdelivering]
    rcases hplace with rfl | rfl <;> exact hno
  | @mark i entry wrote committed c stored hc hwritten =>
    refine h.moved hc rfl (fun hno => ?_) fun j _ => hnone j
    rw [hwritten]
    exact hno

/-! ## Entries of the stream -/

/-- An entry is written when its marker is not there, and the marker stays until it expires. -/
def Appended (s : Publishing) (es : List PublishEvent) : Prop :=
  ∀ id, es.count (.appended id) = es.count (.markerExpired id) + (s.markers id).isSome.toNat

section
variable {s : Publishing} (h : Appended s before)
include h

theorem Appended.quiet (hmarkers : s'.markers = s.markers)
    (hes : ∀ id, PublishEvent.appended id ∉ es ∧ PublishEvent.markerExpired id ∉ es) :
    Appended s' (before ++ es) := by
  intro id
  have hold := h id
  obtain ⟨happended, hexpired⟩ := hes id
  rw [List.count_append, List.count_append, List.count_eq_zero.mpr happended,
    List.count_eq_zero.mpr hexpired, hmarkers]
  omega

theorem Appended.script (id : Nat) :
    Appended (s.runScript id).1 (before ++ (s.runScript id).2.2.2) := by
  unfold Publishing.runScript
  split
  · rw [List.append_nil]
    exact h
  · rename_i hgone
    intro id'
    have hold := h id'
    rw [List.count_append, List.count_append]
    by_cases hid : id' = id
    · subst hid
      rw [hgone] at hold
      have hexpired : PublishEvent.markerExpired id' ∉ [PublishEvent.appended id'] := by simp
      rw [List.count_singleton_self, List.count_eq_zero.mpr hexpired]
      show _ = _ + (Function.update s.markers id' (some s.entries) id').isSome.toNat
      rw [Function.update_self]
      simpa using hold
    · have happended : PublishEvent.appended id' ∉ [PublishEvent.appended id] := by simpa using hid
      have hexpired : PublishEvent.markerExpired id' ∉ [PublishEvent.appended id] := by simp
      rw [List.count_eq_zero.mpr happended, List.count_eq_zero.mpr hexpired]
      show _ = _ + (Function.update s.markers id (some s.entries) id').isSome.toNat
      rw [Function.update_of_ne hid]
      simpa using hold

theorem Appended.step (hs : CallStep s s' es) : Appended s' (before ++ es) := by
  have hnil : ∀ (id : Nat), PublishEvent.appended id ∉ ([] : List PublishEvent) ∧
      PublishEvent.markerExpired id ∉ ([] : List PublishEvent) := fun _ =>
    ⟨List.not_mem_nil, List.not_mem_nil⟩
  cases hs with
  | idle | publish | goto | mark => exact h.quiet rfl hnil
  | insert => exact h.quiet rfl fun id => by simp
  | @script entry wrote i c stored place s₁ _ hc hdelivering hrun hplace =>
    rcases hrun with heq | ⟨rfl, rfl⟩
    · obtain ⟨rfl, rfl⟩ := Prod.mk.inj heq
      exact h.quiet rfl hnil
    · exact h.script stored.event.eventId
  | @expire id hsome =>
    intro id'
    have hold := h id'
    rw [List.count_append, List.count_append]
    have happended : PublishEvent.appended id' ∉ [PublishEvent.markerExpired id] := by simp
    rw [List.count_eq_zero.mpr happended]
    show _ = _ + (Function.update s.markers id none id').isSome.toNat
    by_cases hid : id' = id
    · subst hid
      rw [hsome] at hold
      rw [List.count_singleton_self, Function.update_self]
      simpa using hold
    · have hexpired : PublishEvent.markerExpired id' ∉ [PublishEvent.markerExpired id] := by
        simpa using hid
      rw [List.count_eq_zero.mpr hexpired, Function.update_of_ne hid]
      simpa using hold

end

/-! ## Runs -/

theorem noRow_after (acts : List PublishAction) :
    NoRow (publishing.after acts).state (publishing.after acts).events :=
  (publishing.run_induct (P := fun c => Alive c.state ∧ NoRow c.state c.events)
    (fun c a ⟨ha, hno⟩ =>
      ⟨ha.step (callStep_step c.state a), hno.step ha (callStep_step c.state a)⟩)
    ⟨alive_start, fun _ _ => rfl⟩ acts).2

theorem appended_after (acts : List PublishAction) :
    Appended (publishing.after acts).state (publishing.after acts).events :=
  publishing.run_induct (P := fun c => Appended c.state c.events)
    (fun c a h => h.step (callStep_step c.state a)) (fun _ => rfl) acts

section
variable {s : Publishing} (h : Alive s)
include h

theorem Alive.seqs : s.rows.map (·.seq) = (List.range' 1 s.lastSeq).map some := by
  have hnumbers := h.rows.numbers
  rw [Publishing.core, List.map_map] at hnumbers
  exact hnumbers

theorem Alive.nodup : (s.rows.map (·.seq)).Nodup := by
  rw [h.seqs]
  exact List.Nodup.map (fun _ _ => Option.some.inj) List.nodup_range'

theorem Alive.core_inj {r r' : AgentAnnouncement} (hr : r ∈ s.rows) (hr' : r' ∈ s.rows)
    (heq : r.core = r'.core) : r = r' := by
  have hseq : r.core.seq = r'.core.seq := congrArg AgentAnnouncement.seq heq
  exact List.inj_on_of_nodup_map h.nodup hr hr' hseq

theorem Alive.countP_le_one {p : AgentAnnouncement → Bool}
    (hp : ∀ r ∈ s.rows, ∀ r' ∈ s.rows, p r = true → p r' = true → r.core = r'.core) :
    s.rows.countP p ≤ 1 := by
  have hnodup : (s.rows.filter p).Nodup := (List.Nodup.of_map _ h.nodup).filter p
  rw [List.countP_eq_length_filter]
  match hrows : s.rows.filter p with
  | [] => exact Nat.zero_le 1
  | [_] => exact Nat.le_refl 1
  | r :: r' :: rest =>
    rw [hrows] at hnodup
    have hmem : ∀ {x}, x ∈ r :: r' :: rest → x ∈ s.rows ∧ p x = true := fun hx =>
      List.mem_filter.mp (hrows ▸ hx)
    obtain ⟨hr, hpr⟩ := hmem List.mem_cons_self
    obtain ⟨hr', hpr'⟩ := hmem (List.mem_cons_of_mem r List.mem_cons_self)
    have heq : r = r' := h.core_inj hr hr' (hp r hr r' hr' hpr hpr')
    rw [heq] at hnodup
    exact absurd List.mem_cons_self (List.nodup_cons.mp hnodup).1

theorem Alive.start_row {r : AgentAnnouncement} (hr : r ∈ s.rows) :
    ∃ start ∈ s.rows, start.ofClaim r.event.claimId .start = true ∧
      start.event.ownerSub = r.event.ownerSub ∧ start.event.runId = r.event.runId := by
  have hclaim := (h.rows.trusted _ (Publishing.core_mem hr)).1
  by_cases hphase : r.event.phase = .start
  · exact ⟨r, hr, ofClaim_iff.mpr ⟨hclaim, rfl, hphase⟩, rfl, rfl⟩
  · obtain ⟨start, hmem, hbegun, heq, howner, hrun⟩ :=
      h.rows.begun _ (Publishing.core_mem hr) hphase
    obtain ⟨start', hmem', hevent, -⟩ := Publishing.mem_core hmem
    rw [← hevent] at hbegun heq howner hrun
    refine ⟨start', hmem', ofClaim_iff.mpr ⟨?_, heq, hbegun⟩, howner, hrun⟩
    rw [heq]
    exact hclaim

theorem Alive.start_unique {claimId : Option Nat} {r r' : AgentAnnouncement} (hr : r ∈ s.rows)
    (hr' : r' ∈ s.rows) (hs : r.ofClaim claimId .start = true)
    (hs' : r'.ofClaim claimId .start = true) : r.core = r'.core := by
  obtain ⟨-, hclaim, hphase⟩ := ofClaim_iff.mp hs
  obtain ⟨-, hclaim', hphase'⟩ := ofClaim_iff.mp hs'
  exact h.rows.starts _ (Publishing.core_mem hr) _ (Publishing.core_mem hr') hphase hphase'
    (hclaim.trans hclaim'.symm)

end

/-- A claim has one life: one start, at most one completion and nothing numbered after it, every
step by the owner in the run of the start, and no step stored or delivered twice. -/
theorem announcement_claim_one_life (acts : List PublishAction) :
    let cfg := publishing.after acts
    let rows := cfg.state.rows
    (∀ r ∈ rows, rows.countP (·.ofClaim r.event.claimId .start) = 1 ∧
      rows.countP (·.ofClaim r.event.claimId .completion) ≤ 1) ∧
    (∀ r ∈ rows, ∀ start ∈ rows, start.ofClaim r.event.claimId .start = true →
      r.event.ownerSub = start.event.ownerSub ∧ r.event.runId = start.event.runId) ∧
    (∀ r ∈ rows, ∀ done ∈ rows, r.event.phase ≠ .start →
      done.ofClaim r.event.claimId .completion = true →
      ∀ n m, r.seq = some n → done.seq = some m → n ≤ m) ∧
    (∀ event key, rows.countP (·.hasKey event key) ≤ 1) ∧
    (∀ i c r, cfg.state.calls[i]? = some c → c.place.Pending → r ∈ rows → Repeats r c →
      ∀ more, cfg.events.countP (insertedBy i) = 0 ∧
        (publishing.run cfg more).events.countP (insertedBy i) = 0 ∧
        ∃ c', (publishing.run cfg more).state.calls[i]? = some c' ∧ c'.place.Repeated r) ∧
    (∀ i c code, cfg.state.calls[i]? = some c → c.place = .raised (.claim code) →
      cfg.events.countP (insertedBy i) = 0) ∧
    rows.map (·.seq) = (List.range' 1 cfg.state.lastSeq).map some ∧
    ∀ id, cfg.events.count (.appended id) ≤ cfg.events.count (.markerExpired id) + 1 := by
  intro cfg rows
  have halive : Alive cfg.state := alive_after acts
  have hnoRow : NoRow cfg.state cfg.events := noRow_after acts
  refine ⟨fun r hr => ⟨?_, ?_⟩, ?_, ?_, ?_, ?_, ?_, halive.seqs, ?_⟩
  · obtain ⟨start, hmem, hstart, -⟩ := halive.start_row hr
    -- one start row: there is one, and two would be the same
    have hpos : 0 < rows.countP (·.ofClaim r.event.claimId .start) :=
      List.countP_pos_iff.mpr ⟨start, hmem, hstart⟩
    have hle : rows.countP (·.ofClaim r.event.claimId .start) ≤ 1 :=
      halive.countP_le_one fun _ ha _ hb => halive.start_unique ha hb
    omega
  -- at most one completion
  · refine halive.countP_le_one fun a ha b hb hda hdb => ?_
    obtain ⟨-, hclaim, hphase⟩ := ofClaim_iff.mp hda
    obtain ⟨-, hclaim', hphase'⟩ := ofClaim_iff.mp hdb
    exact halive.rows.completions _ (Publishing.core_mem ha) _ (Publishing.core_mem hb) hphase
      hphase' (hclaim.trans hclaim'.symm)
  · intro r hr start hmem hstart
    obtain ⟨start', hmem', hstart', howner, hrun⟩ := halive.start_row hr
    have heq : start = start' := halive.core_inj hmem hmem'
      (halive.start_unique hmem hmem' hstart hstart')
    rw [heq]
    exact ⟨howner.symm, hrun.symm⟩
  · intro r hr done hdone hphase hcompleted n m hn hm
    obtain ⟨-, hclaim, hdonePhase⟩ := ofClaim_iff.mp hcompleted
    exact halive.rows.closed _ (Publishing.core_mem hr) _ (Publishing.core_mem hdone) hphase
      hdonePhase hclaim.symm n m hn hm
  · intro event key
    refine halive.countP_le_one fun a ha b hb hka hkb => ?_
    obtain ⟨howner, hkey⟩ := hasKey_iff.mp hka
    obtain ⟨howner', hkey'⟩ := hasKey_iff.mp hkb
    have hsome : a.core.idempotencyKey.isSome = true := Option.isSome_iff_exists.mpr ⟨key, hkey⟩
    exact halive.rows.keys _ (Publishing.core_mem ha) _ (Publishing.core_mem hb) hsome
      (howner.trans howner'.symm) (hkey.trans hkey'.symm)
  · intro i c r hc hpending hr hrep more
    have hzero : cfg.events.countP (insertedBy i) = 0 := by
      refine hnoRow i fun d hd => ?_
      obtain rfl := Option.some.inj (hc.symm.trans hd)
      exact hpending.noRow
    -- a call that is to repeat a row goes on to do so in every later run
    have hstart : Repeating i r.core cfg.state :=
      ⟨Publishing.core_mem hr, c, hc, hrep, hpending.repeated _⟩
    obtain ⟨⟨-, c', hc', -, hat⟩, hcount⟩ := repeating_run more halive hstart
    exact ⟨hzero, hcount.trans hzero, c', hc', hat⟩
  · intro i c code hc hraised
    refine hnoRow i fun d hd => ?_
    obtain rfl := Option.some.inj (hc.symm.trans hd)
    rw [hraised]
    rfl
  · intro id
    -- each append beyond the first follows the end of a marker
    have hcount : cfg.events.count (.appended id) = cfg.events.count (.markerExpired id) +
      (cfg.state.markers id).isSome.toNat := appended_after acts id
    have hmarker : (cfg.state.markers id).isSome.toNat ≤ 1 := Bool.toNat_le _
    omega

end Meho.Announce
