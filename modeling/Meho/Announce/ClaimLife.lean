import Meho.Announce.ClaimSteps

/- The rules of a claim in every run of calls.

`ClaimRows` is what holds of the rows: one start for each claim, at most one completion, the
owner and the run of the start in every step, and no step numbered after the completion.
`CallOk` is what a call knows at its place, and rests on the locks: while a call has the
start row, nobody else adds an update or a completion to its claim. A call that repeats a
stored step never inserts and never gets a claim error. -/
namespace Meho.Announce
open Meho.Lib

/-! ## The rows of the claims -/

/-- What the stored rows of all claims have in common. -/
structure ClaimRows (rows : List AgentAnnouncement) (lastSeq : Nat) : Prop where
  trusted : ∀ r ∈ rows, r.event.claimId.isSome = true ∧ r.event.ownerSub.isSome = true
  ids : ∀ r ∈ rows, ∀ r' ∈ rows, r.event.eventId = r'.event.eventId → r = r'
  keys : ∀ r ∈ rows, ∀ r' ∈ rows, r.idempotencyKey.isSome = true →
    r.event.ownerSub = r'.event.ownerSub → r.idempotencyKey = r'.idempotencyKey → r = r'
  starts : ∀ r ∈ rows, ∀ r' ∈ rows, r.event.phase = .start → r'.event.phase = .start →
    r.event.claimId = r'.event.claimId → r = r'
  completions : ∀ r ∈ rows, ∀ r' ∈ rows, r.event.phase = .completion →
    r'.event.phase = .completion → r.event.claimId = r'.event.claimId → r = r'
  begun : ∀ r ∈ rows, r.event.phase ≠ .start → ∃ start ∈ rows, start.event.phase = .start ∧
    start.event.claimId = r.event.claimId ∧ start.event.ownerSub = r.event.ownerSub ∧
      start.event.runId = r.event.runId
  numbers : rows.map (·.seq) = (List.range' 1 lastSeq).map some
  closed : ∀ r ∈ rows, ∀ done ∈ rows, r.event.phase ≠ .start → done.event.phase = .completion →
    r.event.claimId = done.event.claimId → ∀ n m, r.seq = some n → done.seq = some m → n ≤ m

/-- The start row that a call has locked is that of its claim, owner and run. -/
def StartOf (rows : List AgentAnnouncement) (c : Call) (start : Nat) : Prop :=
  ∃ r ∈ rows, r.event.eventId = start ∧ r.event.phase = .start ∧
    r.event.claimId = c.event.claimId ∧ r.event.ownerSub = c.event.ownerSub ∧
      r.event.runId = c.event.runId

/-- A stored row is the step that a call asks for once more. -/
def Repeats (r : AgentAnnouncement) (c : Call) : Prop :=
  ∃ key, c.key = some key ∧ r.hasKey c.event key = true ∧ sameStep r.event c.event = true

variable {event : AgentAnnouncementEvent} {r : AgentAnnouncement}

theorem hasKey_iff {key : String} :
    r.hasKey event key = true ↔
      r.event.ownerSub = event.ownerSub ∧ r.idempotencyKey = some key := by
  simp [AgentAnnouncement.hasKey]

theorem ofClaim_iff {claimId : Option Nat} {phase : Phase} :
    r.ofClaim claimId phase = true ↔
      r.event.claimId.isSome = true ∧ r.event.claimId = claimId ∧ r.event.phase = phase := by
  simp [AgentAnnouncement.ofClaim, and_assoc]

theorem sameStep_fields {stored : AgentAnnouncementEvent} (h : sameStep stored event = true) :
    stored.runId = event.runId ∧ stored.phase = event.phase ∧
      (event.phase = .start ∨ stored.claimId = event.claimId) := by
  simp only [sameStep, Bool.and_eq_true, Bool.or_eq_true, decide_eq_true_eq] at h
  exact ⟨h.1.1.1.1.1.1.1.1.1, h.1.1.1.1.1.1.1.1.2, h.2⟩

variable {new : AgentAnnouncement}

theorem conflicts_eq_false (h : new.conflicts r = false) :
    r.event.eventId ≠ new.event.eventId ∧
      (new.event.ownerSub.isSome = true → new.idempotencyKey.isSome = true →
        r.event.ownerSub = new.event.ownerSub → r.idempotencyKey ≠ new.idempotencyKey) ∧
      (new.event.phase = .start → r.event.phase = .start → new.event.claimId.isSome = true →
        r.event.claimId ≠ new.event.claimId) ∧
      (new.event.phase = .completion → r.event.phase = .completion →
        new.event.claimId.isSome = true → r.event.claimId ≠ new.event.claimId) := by
  simp only [AgentAnnouncement.conflicts, Bool.or_eq_false_iff] at h
  obtain ⟨⟨⟨⟨hid, hkey⟩, hstart⟩, hdone⟩, -⟩ := h
  refine ⟨of_decide_eq_false hid, fun howner hsome heq hkeys => ?_, fun hn hr hclaim heq => ?_,
    fun hn hr hclaim heq => ?_⟩
  · simp [howner, hsome, heq, hkeys] at hkey
  · have hof : r.ofClaim new.event.claimId .start = true := ofClaim_iff.mpr ⟨heq ▸ hclaim, heq, hr⟩
    simp [hn, hof] at hstart
  · have hof : r.ofClaim new.event.claimId .completion = true :=
      ofClaim_iff.mpr ⟨heq ▸ hclaim, heq, hr⟩
    simp [hn, hof] at hdone

variable {rows : List AgentAnnouncement} {lastSeq : Nat}

theorem ClaimRows.seq_le (h : ClaimRows rows lastSeq) (hr : r ∈ rows) :
    ∃ n, r.seq = some n ∧ 1 ≤ n ∧ n ≤ lastSeq := by
  have hmem : r.seq ∈ rows.map (·.seq) := List.mem_map.mpr ⟨r, hr, rfl⟩
  rw [h.numbers] at hmem
  obtain ⟨n, hn, heq⟩ := List.mem_map.mp hmem
  obtain ⟨hlow, hup⟩ := List.mem_range'_1.mp hn
  exact ⟨n, heq.symm, hlow, by omega⟩

/-- What tells apart the items of a list, and the new one from each of them. -/
theorem unique_snoc {α : Type} {R : α → α → Prop} {xs : List α} {x : α}
    (hsymm : ∀ a b, R a b → R b a) (h : ∀ a ∈ xs, ∀ b ∈ xs, R a b → a = b)
    (hnew : ∀ a ∈ xs, ¬ R a x) : ∀ a ∈ xs ++ [x], ∀ b ∈ xs ++ [x], R a b → a = b := by
  intro a ha b hb hab
  rcases List.mem_append.mp ha with ha | ha <;> rcases List.mem_append.mp hb with hb | hb
  · exact h a ha b hb hab
  · rw [List.mem_singleton.mp hb] at hab
    exact absurd hab (hnew a ha)
  · rw [List.mem_singleton.mp ha] at hab
    exact absurd (hsymm _ _ hab) (hnew b hb)
  · rw [List.mem_singleton.mp ha, List.mem_singleton.mp hb]

variable {c : Call}

/-- A row that no unique index refuses, of a claim that is open unless the row starts it. -/
theorem ClaimRows.insert (h : ClaimRows rows lastSeq) (htrusted : c.event.isTrustedClaim = true)
    (hnew : new = ⟨c.event, c.key, none, some (lastSeq + 1)⟩)
    (hfree : ∀ r ∈ rows, new.conflicts r = false)
    (hclaim : c.event.phase ≠ .start → (∃ start, StartOf rows c start) ∧
      ∀ r ∈ rows, r.ofClaim c.event.claimId .completion = false) :
    ClaimRows (rows ++ [new]) (lastSeq + 1) := by
  have hevent : new.event = c.event := by rw [hnew]
  have hseq : new.seq = some (lastSeq + 1) := by rw [hnew]
  obtain ⟨hclaimId, howner⟩ := Bool.and_eq_true_iff.mp htrusted
  have hcases : ∀ {r}, r ∈ rows ++ [new] → r ∈ rows ∨ r = new := fun hr =>
    (List.mem_append.mp hr).imp_right List.mem_singleton.mp
  constructor
  · intro r hr
    rcases hcases hr with hr | rfl
    · exact h.trusted r hr
    · rw [hevent]
      exact ⟨hclaimId, howner⟩
  · exact unique_snoc (fun _ _ => Eq.symm) h.ids fun r hr => (conflicts_eq_false (hfree r hr)).1
  · intro r hr r' hr' hsome hown hkey
    refine unique_snoc (R := fun r r' => r.idempotencyKey.isSome = true ∧
      r.event.ownerSub = r'.event.ownerSub ∧ r.idempotencyKey = r'.idempotencyKey)
      (fun _ _ ⟨hs, ho, hk⟩ => ⟨hk ▸ hs, ho.symm, hk.symm⟩)
      (fun r hr r' hr' hsame => h.keys r hr r' hr' hsame.1 hsame.2.1 hsame.2.2)
      (fun r hr hsame => ?_) r hr r' hr' ⟨hsome, hown, hkey⟩
    obtain ⟨hs, ho, hk⟩ := hsame
    refine (conflicts_eq_false (hfree r hr)).2.1 ?_ (hk ▸ hs) ho hk
    rw [hevent]
    exact howner
  · intro r hr r' hr' hs hs' heq
    refine unique_snoc (R := fun r r' => r.event.phase = .start ∧ r'.event.phase = .start ∧
      r.event.claimId = r'.event.claimId) (fun _ _ ⟨hs, hs', he⟩ => ⟨hs', hs, he.symm⟩)
      (fun r hr r' hr' hsame => h.starts r hr r' hr' hsame.1 hsame.2.1 hsame.2.2)
      (fun r hr hsame => ?_) r hr r' hr' ⟨hs, hs', heq⟩
    refine (conflicts_eq_false (hfree r hr)).2.2.1 hsame.2.1 hsame.1 ?_ hsame.2.2
    rw [hevent]
    exact hclaimId
  · intro r hr r' hr' hs hs' heq
    refine unique_snoc (R := fun r r' => r.event.phase = .completion ∧
      r'.event.phase = .completion ∧ r.event.claimId = r'.event.claimId)
      (fun _ _ ⟨hs, hs', he⟩ => ⟨hs', hs, he.symm⟩)
      (fun r hr r' hr' hsame => h.completions r hr r' hr' hsame.1 hsame.2.1 hsame.2.2)
      (fun r hr hsame => ?_) r hr r' hr' ⟨hs, hs', heq⟩
    refine (conflicts_eq_false (hfree r hr)).2.2.2 hsame.2.1 hsame.1 ?_ hsame.2.2
    rw [hevent]
    exact hclaimId
  · intro r hr hphase
    rcases hcases hr with hr | rfl
    · obtain ⟨start, hstart, hfields⟩ := h.begun r hr hphase
      exact ⟨start, List.mem_append_left _ hstart, hfields⟩
    · rw [hevent] at hphase ⊢
      obtain ⟨⟨_, start, hstart, -, hfields⟩, -⟩ := hclaim hphase
      exact ⟨start, List.mem_append_left _ hstart, hfields⟩
  · rw [List.map_append, h.numbers, List.range'_concat, List.map_append]
    simp [hseq, Nat.add_comm]
  · intro r hr done hdone hphase hcompleted heq n m hn hm
    rcases hcases hr with hold | rfl <;> rcases hcases hdone with holdDone | rfl
    · exact h.closed r hold done holdDone hphase hcompleted heq n m hn hm
    · obtain rfl := Option.some.inj (hseq.symm.trans hm)
      obtain ⟨k, hk, -, hle⟩ := h.seq_le hold
      obtain rfl := Option.some.inj (hk.symm.trans hn)
      omega
    · -- the claim of the new row has no completion
      rw [hevent] at hphase heq
      have hopen := (hclaim hphase).2 done holdDone
      have hof : done.ofClaim c.event.claimId .completion = true :=
        ofClaim_iff.mpr ⟨heq ▸ hclaimId, heq.symm, hcompleted⟩
      rw [hof] at hopen
      cases hopen
    · rw [hn] at hm
      exact Nat.le_of_eq (Option.some.inj hm)

/-! ## What a call knows -/

/-- A stored step as a call carries it on. -/
def Kept (rows : List AgentAnnouncement) (c : Call) (event : AgentAnnouncementEvent)
    (seq : Option Nat) (replayed : Bool) : Prop :=
  ∃ r ∈ rows, r.event = event ∧ r.seq = seq ∧ (replayed = true → Repeats r c) ∧
    (replayed = false → r.event = c.event ∧ r.idempotencyKey = c.key)

/-- A step on a claim that its call has locked. -/
structure OnClaim (rows : List AgentAnnouncement) (c : Call) (start : Nat) : Prop where
  trusted : c.event.isTrustedClaim = true
  phase : c.event.phase ≠ .start
  start : StartOf rows c start

/-- And whose key has no row. -/
structure Unkeyed (rows : List AgentAnnouncement) (c : Call) (start : Nat) : Prop
    extends OnClaim rows c start where
  fresh : ∀ r ∈ rows, ¬ Repeats r c

/-- A call that read its claim open, before its insert. -/
structure Opened (rows : List AgentAnnouncement) (c : Call) (start : Nat) : Prop
    extends Unkeyed rows c start where
  uncompleted : ∀ r ∈ rows, r.ofClaim c.event.claimId .completion = false

def CallOk (rows : List AgentAnnouncement) (lastSeq : Nat) (c : Call) : Prop :=
  match c.place with
  | .called | .collided | .raised _ => True
  | .looked => c.event.isTrustedClaim = true ∧ c.event.phase = .start
  | .locked start => OnClaim rows c start
  | .unkeyed start => Unkeyed rows c start
  | .opened start => Opened rows c start
  | .numbered none n =>
    c.event.isTrustedClaim = true ∧ c.event.phase = .start ∧ n = lastSeq + 1
  | .numbered (some start) n => Opened rows c start ∧ n = lastSeq + 1
  | .stored step => Kept rows c step.event step.seq step.replayed ∧
    (step.delivered = true → step.replayed = true)
  | .delivering step | .written step .. => Kept rows c step.event step.seq step.replayed
  | .answered result => Kept rows c result.event result.seq result.replayed

variable {start : Nat}

theorem StartOf.grow {rows' : List AgentAnnouncement} (h : StartOf rows c start)
    (hsub : ∀ r ∈ rows, r ∈ rows') : StartOf rows' c start := by
  obtain ⟨r, hr, hfields⟩ := h
  exact ⟨r, hsub r hr, hfields⟩

theorem Kept.grow {rows' : List AgentAnnouncement} {seq : Option Nat} {replayed : Bool}
    (h : Kept rows c event seq replayed) (hsub : ∀ r ∈ rows, r ∈ rows') :
    Kept rows' c event seq replayed := by
  obtain ⟨r, hr, hfields⟩ := h
  exact ⟨r, hsub r hr, hfields⟩

/-- Another call's row: it is no step of a claim that this one has locked. -/
theorem CallOk.grow {lastSeq' : Nat} (h : CallOk rows lastSeq c)
    (hcounter : c.place.holdsCounter = false)
    (hnew : c.place.start?.isSome = true → new.event.phase ≠ .start → new.event.claimId ≠ c.event.claimId) :
    CallOk (rows ++ [new]) lastSeq' c := by
  have hsub : ∀ r ∈ rows, r ∈ rows ++ [new] := fun r hr => List.mem_append_left _ hr
  have hclaim : ∀ {start}, c.place.start?.isSome = true → OnClaim rows c start →
      OnClaim (rows ++ [new]) c start := fun _ hon =>
    ⟨hon.trusted, hon.phase, hon.start.grow hsub⟩
  have hfresh : ∀ {start}, c.place.start?.isSome = true → Unkeyed rows c start →
      Unkeyed (rows ++ [new]) c start := by
    intro start hsome hun
    refine ⟨hclaim hsome hun.toOnClaim, fun r hr hrepeats => ?_⟩
    rcases List.mem_append.mp hr with hr | hr
    · exact hun.fresh r hr hrepeats
    · obtain rfl := List.mem_singleton.mp hr
      obtain ⟨_, -, -, hsame⟩ := hrepeats
      obtain ⟨-, hphase, hstart | heq⟩ := sameStep_fields hsame
      -- the new row repeats the call only if it is of the same claim, which it is not
      · exact hun.phase hstart
      · exact hnew hsome (fun hs => hun.phase (hphase.symm.trans hs)) heq
  have hopen : ∀ {start}, c.place.start?.isSome = true → Opened rows c start →
      Opened (rows ++ [new]) c start := by
    intro start hsome hop
    refine ⟨hfresh hsome hop.toUnkeyed, fun r hr => ?_⟩
    rcases List.mem_append.mp hr with hr | hr
    · exact hop.uncompleted r hr
    · obtain rfl := List.mem_singleton.mp hr
      rw [Bool.eq_false_iff]
      intro hof
      obtain ⟨-, heq, hphase⟩ := ofClaim_iff.mp hof
      exact hnew hsome (fun hs => by rw [hphase] at hs; cases hs) heq
  unfold CallOk at h ⊢
  cases hp : c.place with
  | called => trivial
  | collided => trivial
  | raised => trivial
  | looked =>
    rw [hp] at h
    exact h
  | locked =>
    rw [hp] at h
    exact hclaim (by rw [hp]; rfl) h
  | unkeyed =>
    rw [hp] at h
    exact hfresh (by rw [hp]; rfl) h
  | opened =>
    rw [hp] at h
    exact hopen (by rw [hp]; rfl) h
  | numbered start n =>
    rw [hp] at hcounter
    cases hcounter
  | stored step =>
    rw [hp] at h
    exact ⟨h.1.grow hsub, h.2⟩
  | delivering step | written step | answered result =>
    rw [hp] at h
    exact Kept.grow h hsub

/-! ## Lookups -/

variable {key : Option String}

theorem findByKey_some {step : StoredStep} (h : findByKey rows event key = .ok (some step)) :
    ∃ k, key = some k ∧ ∃ r ∈ rows, r.hasKey event k = true ∧ sameStep r.event event = true ∧
      step.event = r.event ∧ step.seq = r.seq ∧ step.replayed = true := by
  unfold findByKey at h
  split at h
  · cases h
  · rename_i r hfound
    obtain ⟨k, rfl, hfind⟩ := Option.bind_eq_some_iff.mp hfound
    split at h
    · rename_i hsame
      obtain rfl := Option.some.inj (Except.ok.inj h)
      exact ⟨k, rfl, r, List.mem_of_find?_eq_some hfind, by simpa using List.find?_some hfind,
        hsame, rfl, rfl, rfl⟩
    · cases h

theorem findByKey_none (h : findByKey rows event key = .ok none) {k : String} (hk : key = some k) :
    ∀ r ∈ rows, r.hasKey event k = false := by
  subst hk
  unfold findByKey at h
  split at h
  · rename_i hnone
    exact fun r hr => Bool.eq_false_iff.mpr (List.find?_eq_none.mp hnone r hr)
  · split at h <;> cases h

theorem findByKey_error {code : ClaimErrorCode} (h : findByKey rows event key = .error code) :
    ∃ k, key = some k ∧ ∃ r ∈ rows, r.hasKey event k = true ∧ sameStep r.event event = false := by
  unfold findByKey at h
  split at h
  · cases h
  · rename_i r hfound
    obtain ⟨k, rfl, hfind⟩ := Option.bind_eq_some_iff.mp hfound
    split at h
    · cases h
    · rename_i hsame
      exact ⟨k, rfl, r, List.mem_of_find?_eq_some hfind, by simpa using List.find?_some hfind,
        Bool.eq_false_iff.mpr hsame⟩

variable {s : Publishing}

theorem looked_ok {fresh : CallAt}
    (hfresh : (∀ r ∈ s.core, ¬ Repeats r c) → CallOk s.core lastSeq { c with place := fresh }) :
    CallOk s.core lastSeq
      { c with place := Publishing.looked (findByKey s.rows c.event c.key) fresh } := by
  cases hfound : findByKey s.rows c.event c.key with
  | error code => trivial
  | ok found =>
    cases found with
    | none =>
      apply hfresh
      rintro r hr ⟨k, hk, hkey, -⟩
      obtain ⟨r', hr', hevent, hkey', -⟩ := Publishing.mem_core hr
      have hno := findByKey_none hfound hk r' hr'
      have hyes : r'.hasKey c.event k = true := by
        rw [hasKey_iff] at hkey ⊢
        rw [hevent, hkey']
        exact hkey
      rw [hyes] at hno
      cases hno
    | some step =>
      obtain ⟨k, hk, r, hr, hkey, hsame, hevent, hseq, hreplayed⟩ := findByKey_some hfound
      refine ⟨⟨r.core, Publishing.core_mem hr, hevent.symm, hseq.symm, fun _ => ?_, fun hno => ?_⟩,
        fun _ => hreplayed⟩
      · exact ⟨k, hk, hkey, hsame⟩
      · rw [hreplayed] at hno
        cases hno

theorem statement_ok (h : CallOk s.core s.lastSeq c) :
    CallOk s.core s.lastSeq { c with place := s.statement c } := by
  cases hp : c.place with
  | called =>
    simp only [Publishing.statement, hp]
    split
    · trivial
    · rename_i htrusted
      have htrusted' : c.event.isTrustedClaim = true := by simpa using htrusted
      split
      · rename_i hstart
        exact looked_ok fun _ => ⟨htrusted', hstart⟩
      · rename_i hphase
        unfold Publishing.lockStart
        split
        · trivial
        · rename_i start hfind
          split
          · rw [hp]
            trivial
          · split
            · trivial
            · rename_i hsame
              rw [not_or, not_not, not_not] at hsame
              obtain ⟨-, hclaim, hstart⟩ := ofClaim_iff.mp (List.find?_some hfind)
              -- the start row that was found is the one the call claims
              exact ⟨htrusted', hphase, start.core,
                Publishing.core_mem (List.mem_of_find?_eq_some hfind), rfl, hstart, hclaim,
                hsame.1, hsame.2⟩
  | looked =>
    simp only [CallOk, hp] at h
    simp only [Publishing.statement, hp]
    split
    · exact ⟨h.1, h.2, rfl⟩
    · exact h
  | locked start =>
    simp only [CallOk, hp] at h
    simp only [Publishing.statement, hp]
    exact looked_ok fun hfresh => ⟨⟨h.trusted, h.phase, h.start⟩, hfresh⟩
  | unkeyed start =>
    simp only [CallOk, hp] at h
    simp only [Publishing.statement, hp]
    unfold Publishing.checkCompleted
    split
    · trivial
    · rename_i hnone
      refine ⟨⟨⟨h.trusted, h.phase, h.start⟩, h.fresh⟩, fun r hr => ?_⟩
      -- a completed row of the claim would have been found by the check
      obtain ⟨r', hr', hevent, -⟩ := Publishing.mem_core hr
      rw [Bool.eq_false_iff]
      intro hof
      apply hnone
      refine List.any_eq_true.mpr ⟨r', hr', ?_⟩
      rw [ofClaim_iff] at hof ⊢
      rw [hevent]
      exact hof
  | opened start =>
    simp only [CallOk, hp] at h
    simp only [Publishing.statement, hp]
    have hopened : Opened s.core { c with place := .opened start } start :=
      ⟨⟨⟨h.trusted, h.phase, h.start⟩, h.fresh⟩, h.uncompleted⟩
    split
    · exact ⟨⟨⟨⟨h.trusted, h.phase, h.start⟩, h.fresh⟩, h.uncompleted⟩, rfl⟩
    · exact hopened
  | collided =>
    simp only [Publishing.statement, hp]
    refine looked_ok fun _ => ?_
    split <;> trivial
  | stored step =>
    simp only [CallOk, hp] at h
    obtain ⟨hkept, hdelivered⟩ := h
    simp only [Publishing.statement, hp]
    unfold Publishing.lockStored
    split
    · rename_i hdel
      rw [hdelivered hdel] at hkept
      exact hkept
    · split
      · trivial
      · split
        · rw [hp]
          exact ⟨hkept, hdelivered⟩
        · split
          · exact hkept
          · exact hkept
  | numbered start n =>
    simp only [Publishing.statement, hp]
    have heq : ({ c with place := .numbered start n } : Call) = c := by rw [← hp]
    rw [heq]
    exact h
  | delivering step =>
    simp only [Publishing.statement, hp]
    have heq : ({ c with place := .delivering step } : Call) = c := by rw [← hp]
    rw [heq]
    exact h
  | written step entry wrote =>
    simp only [Publishing.statement, hp]
    have heq : ({ c with place := .written step entry wrote } : Call) = c := by rw [← hp]
    rw [heq]
    exact h
  | answered result =>
    simp only [Publishing.statement, hp]
    have heq : ({ c with place := .answered result } : Call) = c := by rw [← hp]
    rw [heq]
    exact h
  | raised error =>
    simp only [Publishing.statement, hp]
    trivial

/-! ## Every step -/

/-- What holds of the rows, of every call, and of the locks. -/
structure Alive (s : Publishing) : Prop where
  rows : ClaimRows s.core s.lastSeq
  calls : ∀ (i : Nat) (c : Call), s.calls[i]? = some c → CallOk s.core s.lastSeq c
  locks : Exclusive s

theorem CallOk.onClaim (h : CallOk rows lastSeq c) (hstart : c.place.start? = some start) :
    OnClaim rows c start ∧ c.place.lockedRow = some start := by
  unfold CallOk at h
  cases hp : c.place with
  | locked =>
    rw [hp] at h hstart
    obtain rfl := Option.some.inj hstart
    exact ⟨h, rfl⟩
  | unkeyed | opened =>
    rw [hp] at h hstart
    obtain rfl := Option.some.inj hstart
    exact ⟨h.toOnClaim, rfl⟩
  | numbered start? n =>
    rw [hp] at h hstart
    cases start? with
    | none => cases hstart
    | some =>
      obtain rfl := Option.some.inj hstart
      exact ⟨h.1.toOnClaim, rfl⟩
  | called | looked | collided | stored | delivering | written | answered | raised =>
    rw [hp] at hstart
    cases hstart

variable {i : Nat}

theorem Alive.one_call (h : Alive s) {j start' : Nat} {d : Call} (hc : s.calls[i]? = some c)
    (hd : s.calls[j]? = some d) (hcs : c.place.start? = some start)
    (hds : d.place.start? = some start') (heq : c.event.claimId = d.event.claimId) : i = j := by
  obtain ⟨hon, hlocked⟩ := (h.calls i c hc).onClaim hcs
  obtain ⟨hon', hlocked'⟩ := (h.calls j d hd).onClaim hds
  obtain ⟨r, hr, hid, hphase, hclaim, -⟩ := hon.start
  obtain ⟨r', hr', hid', hphase', hclaim', -⟩ := hon'.start
  have hsame : r = r' :=
    h.rows.starts r hr r' hr' hphase hphase' (hclaim.trans (heq.trans hclaim'.symm))
  have hstart : start = start' := by rw [← hid, ← hid', hsame]
  subst hstart
  exact h.locks.rows i j start c d hc hd hlocked hlocked'

variable {s' : Publishing}

theorem Alive.moved (h : Alive s) {place : CallAt} (hc : s.calls[i]? = some c)
    (hcalls : s'.calls = (s.goto i c place).calls) (hcore : s'.core = s.core)
    (hseq : s'.lastSeq = s.lastSeq) (hlocks : Exclusive s')
    (hplace : CallOk s.core s.lastSeq { c with place }) : Alive s' := by
  refine ⟨by rw [hcore, hseq]; exact h.rows, fun j d hd => ?_, hlocks⟩
  rw [hcore, hseq]
  rw [hcalls] at hd
  rcases goto_calls hc place hd with ⟨-, rfl⟩ | ⟨-, hd'⟩
  · exact hplace
  · exact h.calls j d hd'

/-- A call inserts its row while it has the counter, and with it the last number. -/
theorem Alive.numbered (h : Alive s) {n : Nat} {start : Option Nat} (hc : s.calls[i]? = some c)
    (hn : c.place = .numbered start n) :
    n = s.lastSeq + 1 ∧ c.event.isTrustedClaim = true ∧
      (c.event.phase ≠ .start → ∃ row, start = some row ∧ Opened s.core c row) := by
  have hok := h.calls i c hc
  simp only [CallOk, hn] at hok
  cases start with
  | none =>
    obtain ⟨htrusted, hphase, hseq⟩ := hok
    exact ⟨hseq, htrusted, fun hne => absurd hphase hne⟩
  | some row => exact ⟨hok.2, hok.1.trusted, fun _ => ⟨row, rfl, hok.1⟩⟩

theorem core_snoc (s : Publishing) (c : Call) (n : Nat) :
    (s.rows ++ [(⟨c.event, c.key, none, some n⟩ : AgentAnnouncement)]).map AgentAnnouncement.core =
      s.core ++ [⟨c.event, c.key, none, some n⟩] := by
  rw [List.map_append]
  rfl

theorem core_free (h : ∀ r ∈ s.rows, new.conflicts r = false) :
    ∀ r ∈ s.core, new.conflicts r = false := by
  intro r hr
  obtain ⟨r', hr', rfl⟩ := List.mem_map.mp hr
  exact h r' hr'

theorem core_mark (rows : List AgentAnnouncement) (id entry : Nat) :
    (rows.map fun r => if r.event.eventId = id then { r with streamEntryId := some entry }
      else r).map AgentAnnouncement.core = rows.map AgentAnnouncement.core := by
  rw [List.map_map]
  apply List.map_congr_left
  intro r _
  show AgentAnnouncement.core (if r.event.eventId = id then _ else r) = r.core
  split <;> rfl

/-- The new row belongs to its call's claim, and no other call has that claim's start row. -/
theorem Alive.insert (h : Alive s) {n : Nat} {start : Option Nat} {place : CallAt}
    (hc : s.calls[i]? = some c) (hn : c.place = .numbered start n)
    (hfree : ∀ r ∈ s.rows, (AgentAnnouncement.mk c.event c.key none (some n)).conflicts r = false)
    (hplace : place = .stored ⟨c.event, false, some n, false⟩ ∨ place = .raised .failed)
    (hcalls : s'.calls = (s.goto i c place).calls)
    (hcore : s'.core = s.core ++ [⟨c.event, c.key, none, some n⟩]) (hseq : s'.lastSeq = n)
    (hlocks : Exclusive s') : Alive s' := by
  obtain ⟨hlast, htrusted, hclaim⟩ := h.numbered hc hn
  refine ⟨?_, fun j d hd => ?_, hlocks⟩
  · rw [hcore, hseq]
    subst hlast
    refine h.rows.insert htrusted rfl (core_free hfree) fun hphase => ?_
    obtain ⟨row, -, hopened⟩ := hclaim hphase
    exact ⟨⟨row, hopened.start⟩, hopened.uncompleted⟩
  · rw [hcore, hseq]
    rw [hcalls] at hd
    rcases goto_calls hc place hd with ⟨-, rfl⟩ | ⟨hj, hd'⟩
    · rcases hplace with rfl | rfl
      · refine ⟨⟨_, List.mem_append_right _ (List.mem_singleton_self _), rfl, rfl, ?_, ?_⟩, ?_⟩
        · intro hreplayed
          cases hreplayed
        · exact fun _ => ⟨rfl, rfl⟩
        · intro hdelivered
          cases hdelivered
      · trivial
    · refine (h.calls j d hd').grow ?_ fun hstart hphase heq => hj ?_
      · rw [Bool.eq_false_iff]
        intro hholds
        exact hj (h.locks.counter j i d c hd' hc hholds (by rw [hn]; rfl))
      · obtain ⟨row, rfl, -⟩ := hclaim hphase
        obtain ⟨row', hrow'⟩ := Option.isSome_iff_exists.mp hstart
        exact h.one_call hd' hc hrow' (by rw [hn]; rfl) heq.symm

theorem Alive.step {es : List PublishEvent} (h : Alive s) (hs : CallStep s s' es) : Alive s' := by
  have hlocks := h.locks.step hs
  cases hs with
  | idle => exact h
  | expire => exact ⟨h.rows, h.calls, hlocks⟩
  | publish event key =>
    refine ⟨h.rows, fun j d hd => ?_, hlocks⟩
    rcases List.mem_append.mp (List.mem_of_getElem? hd) with hmem | hmem
    · obtain ⟨k, hk⟩ := List.getElem?_of_mem hmem
      exact h.calls k d hk
    · rw [List.mem_singleton.mp hmem]
      trivial
  | @goto i c place hc hgoes =>
    refine h.moved hc rfl rfl rfl hlocks ?_
    cases hgoes with
    | statement => exact statement_ok (h.calls i c hc)
    | collide => trivial
    | fail => trivial
  | insert hc hn hfree hplace =>
    exact h.insert hc hn hfree hplace rfl (core_snoc s _ _) rfl hlocks
  | @script entry wrote i c stored place s₁ _ hc hdelivering hrun hplace =>
    -- the script delivers what is stored, and stores nothing itself
    have hsame : s₁.calls = s.calls ∧ s₁.rows = s.rows ∧ s₁.lastSeq = s.lastSeq := by
      rcases hrun with heq | ⟨rfl, -⟩
      · rw [(Prod.mk.inj heq).1]
        exact ⟨rfl, rfl, rfl⟩
      · exact ⟨runScript_calls s _, runScript_rows s _⟩
    obtain ⟨hcalls, hrows, hseq⟩ := hsame
    have hmoved : (s₁.goto i c place).calls = (s.goto i c place).calls := by
      show Parties.moveOne s₁.calls i _ = Parties.moveOne s.calls i _
      rw [hcalls]
    refine h.moved hc hmoved ?_ hseq hlocks ?_
    · show s₁.rows.map AgentAnnouncement.core = s.rows.map AgentAnnouncement.core
      rw [hrows]
    · have hkept := h.calls i c hc
      simp only [CallOk, hdelivering] at hkept
      rcases hplace with rfl | rfl <;> exact hkept
  | @mark i entry wrote committed c stored hc hwritten =>
    refine h.moved hc rfl ?_ rfl hlocks ?_
    · show List.map _ (if committed = true then _ else s.rows) = s.rows.map AgentAnnouncement.core
      split
      · exact core_mark s.rows _ entry
      · rfl
    · have hkept := h.calls i c hc
      simp only [CallOk, hwritten] at hkept
      exact hkept

theorem alive_start : Alive publishing.start := by
  constructor
  · constructor
    case numbers => rfl
    all_goals
      intro r hr
      cases hr
  · intro i c hc
    cases hc
  · constructor
    · intro i j c d hc
      cases hc
    · intro i j id c d hc
      cases hc

theorem alive_after (acts : List PublishAction) : Alive (publishing.after acts).state :=
  publishing.run_induct (P := fun c => Alive c.state)
    (fun c a h => h.step (callStep_step c.state a)) alive_start acts

end Meho.Announce
