import Meho.Results.AdmissionSteps

/- The gate of the result reads: in every run its counter is the number of reads that hold a
slot, and each read takes and gives a slot as its place says (`GateKept`). -/
namespace Meho.Results
open Meho.Lib

section Steps
variable {T : Type} [DecidableEq T] {cap : Nat}

/-- A number of read `i`, zero when there is no such read. -/
def Reads.of (s : Reads T) (f : Place → Nat) (i : Nat) : Nat :=
  (s.reads[i]?.map (f ·.place)).getD 0

variable {i : Nat} {r : Read T}

omit [DecidableEq T] in
theorem Reads.of_at {s : Reads T} (h : s.reads[i]? = some r) (f : Place → Nat) :
    s.of f i = f r.place := by
  simp [Reads.of, h]

omit [DecidableEq T] in
theorem Reads.of_arrive (s : Reads T) (f : Place → Nat) (hf : f .rating = 0) (tenant : T)
    (i : Nat) : Reads.of { s with reads := s.reads ++ [⟨tenant, .rating⟩] } f i = s.of f i := by
  unfold Reads.of
  rcases Nat.lt_trichotomy i s.reads.length with hlt | rfl | hgt
  · simp [List.getElem?_append_left hlt]
  · simp [hf]
  · have hnew : (s.reads ++ [(⟨tenant, .rating⟩ : Read T)])[i]? = none := by
      apply List.getElem?_eq_none
      simp
      omega
    simp [hnew, List.getElem?_eq_none (Nat.le_of_lt hgt)]

omit [DecidableEq T] in
theorem Reads.countAt_goto {s : Reads T} (h : s.reads[i]? = some r) (p : Place → Bool)
    (place : Place) :
    (s.goto i r place).countAt p + (p r.place).toNat = s.countAt p + (p place).toNat :=
  Parties.countP_moveOne (fun r : Read T => p r.place) h { r with place }

/-- The gate counts the reads that hold a slot, and each read takes and gives its slot as its
place says. -/
structure GateKept (workers : Nat) (c : Config (Reads T) GateEvent) : Prop where
  capacity : c.state.gate.capacity = workers
  slots : c.state.gate.inUse = c.state.countAt Place.holdsSlot
  within : c.state.gate.inUse ≤ workers
  taken : ∀ i, c.events.count (.taken i) = c.state.of Place.taken i
  given : ∀ i, c.events.count (.given i) = c.state.of Place.given i

variable {workers : Nat}

variable {c : Config (Reads T) GateEvent} {place : Place} {s' : Reads T}

omit [DecidableEq T] in
theorem GateKept.goto (h : GateKept workers c) (hr : c.state.reads[i]? = some r)
    {es : List GateEvent} (hreads : s'.reads = (c.state.goto i r place).reads)
    (hcapacity : s'.gate.capacity = c.state.gate.capacity)
    (hgate : s'.gate.inUse + r.place.holdsSlot.toNat = c.state.gate.inUse + place.holdsSlot.toNat)
    (hwithin : s'.gate.inUse ≤ workers)
    (htaken : ∀ j, es.count (.taken j) + (if j = i then r.place.taken else 0) =
      if j = i then place.taken else 0)
    (hgiven : ∀ j, es.count (.given j) + (if j = i then r.place.given else 0) =
      if j = i then place.given else 0) :
    GateKept workers ⟨s', c.events ++ es⟩ := by
  have hslots := Reads.countAt_goto hr Place.holdsSlot place
  have hcount : s'.countAt Place.holdsSlot = (c.state.goto i r place).countAt Place.holdsSlot := by
    unfold Reads.countAt
    rw [hreads]
  -- what the read at `i` counts changes with its place, every other count stays
  have hof : ∀ (f : Place → Nat) (j : Nat),
      s'.of f j = if j = i then f place else c.state.of f j := by
    intro f j
    unfold Reads.of
    rw [hreads]
    by_cases hj : j = i
    · subst hj
      have hat := Parties.moveOne_at hr { r with place }
      rw [if_pos rfl, Reads.goto, hat]
      rfl
    · have hother := Parties.moveOne_other c.state.reads (Ne.symm hj) { r with place }
      rw [if_neg hj, Reads.goto, hother]
  refine ⟨hcapacity.trans h.capacity, ?_, hwithin, fun j => ?_, fun j => ?_⟩
  · show s'.gate.inUse = s'.countAt Place.holdsSlot
    have := h.slots
    omega
  · show (c.events ++ es).count _ = s'.of _ j
    have hj := htaken j
    rw [List.count_append, h.taken, hof]
    by_cases hji : j = i
    · subst hji
      rw [Reads.of_at hr]
      simp only [if_true] at hj ⊢
      omega
    · simp only [if_neg hji] at hj ⊢
      omega
  · show (c.events ++ es).count _ = s'.of _ j
    have hj := hgiven j
    rw [List.count_append, h.given, hof]
    by_cases hji : j = i
    · subst hji
      rw [Reads.of_at hr]
      simp only [if_true] at hj ⊢
      omega
    · simp only [if_neg hji] at hj ⊢
      omega

omit [DecidableEq T] in
theorem GateKept.quiet (h : GateKept workers c) (hr : c.state.reads[i]? = some r)
    (hreads : s'.reads = (c.state.goto i r place).reads) (hgate : s'.gate = c.state.gate)
    (hholds : place.holdsSlot = r.place.holdsSlot) (htaken : place.taken = r.place.taken)
    (hgiven : place.given = r.place.given) : GateKept workers ⟨s', c.events ++ []⟩ := by
  apply h.goto hr hreads
  · rw [hgate]
  · rw [hgate, hholds]
  · rw [hgate]
    exact h.within
  · intro j
    rw [htaken, List.count_nil, Nat.zero_add]
  · intro j
    rw [hgiven, List.count_nil, Nat.zero_add]

omit [DecidableEq T] in
theorem GateKept.give (h : GateKept workers c) (hr : c.state.reads[i]? = some r)
    (hholds : r.place.holdsSlot = true) (hfree : place.holdsSlot = false)
    (htaken : place.taken = r.place.taken) (hgiven : place.given = r.place.given + 1) :
    GateKept workers
      ⟨{ c.state.goto i r place with gate := c.state.gate.release }, c.events ++ [.given i]⟩ := by
  have hpos : 0 < c.state.countAt Place.holdsSlot :=
    Parties.countP_pos_of_at hr hholds
  have hslots := h.slots
  have hwithin := h.within
  refine h.goto hr rfl rfl ?_ ?_ ?_ ?_
  · show c.state.gate.inUse - 1 + _ = _
    rw [hholds, hfree, Bool.toNat_true, Bool.toNat_false]
    omega
  · show c.state.gate.inUse - 1 ≤ workers
    omega
  · intro j
    rw [htaken]
    simp
  · intro j
    rw [hgiven]
    by_cases hj : j = i
    · subst hj
      simp
      omega
    · simp [hj, Ne.symm hj]

theorem GateKept.step (h : GateKept workers c) {a : ReadAction T} {es : List GateEvent}
    (hs : Steps cap c.state a s' es) : GateKept workers ⟨s', c.events ++ es⟩ := by
  cases hs with
  | idle => rwa [List.append_nil]
  | arrive tenant =>
    refine ⟨h.capacity, ?_, h.within, fun i => ?_, fun i => ?_⟩
    · show c.state.gate.inUse = (c.state.reads ++ [_]).countP _
      rw [Parties.countP_arrive]
      exact h.slots
    · rw [List.append_nil, Reads.of_arrive _ _ rfl]
      exact h.taken i
    · rw [List.append_nil, Reads.of_arrive _ _ rfl]
      exact h.given i
  | @move i r hr m =>
    obtain ⟨hholds, htaken, hgiven⟩ := r.place.after_keeps c.state.clock m
    exact h.quiet hr rfl rfl hholds htaken hgiven
  | full hr hasking =>
    exact h.quiet hr rfl rfl (by rw [hasking]; rfl) (by rw [hasking]; rfl) (by rw [hasking]; rfl)
  | @slot i r hr hasking hfree =>
    refine h.goto hr rfl rfl ?_ ?_ ?_ ?_
    · rw [hasking]
      rfl
    · have := h.capacity
      -- the slot that was free is taken, and counted once for this read
      show c.state.gate.inUse + 1 ≤ workers
      omega
    · intro j
      rw [hasking]
      by_cases hj : j = i
      · subst hj
        simp [Place.taken]
      · simp [hj, Ne.symm hj]
    · intro j
      rw [hasking]
      simp [Place.given]
  | atCap hr hclock | lease hr hclock =>
      exact h.quiet hr rfl rfl (by rw [hclock]; rfl) (by rw [hclock]; rfl) (by rw [hclock]; rfl)
  | giveBack hr hgiving =>
    exact h.give hr (by rw [hgiving]; rfl) rfl (by rw [hgiving]; rfl) (by rw [hgiving]; rfl)
  | dropLease hr hl hmarked =>
    refine h.quiet hr rfl rfl ?_ ?_ ?_
    · simp [hl, Place.holdsSlot_admitted, hmarked]
    · rw [hl]
      rfl
    · simp [hl, Place.given, hmarked]
  | giveSlot hr hl hdropped =>
    refine h.give hr ?_ ?_ ?_ ?_
    · simp [hl, Place.holdsSlot_admitted, hdropped]
    · simp [Place.holdsSlot_admitted]
    · rw [hl]
      rfl
    · simp [hl, Place.given, hdropped]
  | renew | tick =>
    rw [List.append_nil]
    exact ⟨h.capacity, h.slots, h.within, h.taken, h.given⟩

end Steps
end Meho.Results
