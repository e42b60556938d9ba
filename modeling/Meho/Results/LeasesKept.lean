import Meho.Results.SlotsKept

/- The leases of the tenants, and what holds in every run of result reads.

`LeasesKept`: tokens are distinct, every token that a tenant holds is that of a read which
has not dropped it, and a tenant's cap bounds what it holds. A release or a renewal of one
lease leaves the expiry of every other as it is (`others_expiry`). `result_read_slots` puts
the gate, the leases and the releases together. -/
namespace Meho.Results
open Meho.Lib

section Steps
variable {T : Type} [DecidableEq T] {cap workers : Nat}

/-- The token of a read with a lease. -/
def Reads.tokenOf (s : Reads T) (i : Nat) : Option Nat :=
  s.reads[i]?.bind fun r => r.place.lease?.map (·.token)

/-- The tenant and the token that a read has not dropped yet. -/
def Reads.ownOf (s : Reads T) (i : Nat) : Option (T × Nat) :=
  s.reads[i]?.bind fun r => (r.place.lease?.filter (·.ownsToken)).map (r.tenant, ·.token)

variable {s : Reads T} {i : Nat}

omit [DecidableEq T] in
theorem Reads.tokenOf_of_ownOf {k : Nat} {tenant : T} (h : s.ownOf i = some (tenant, k)) :
    s.tokenOf i = some k := by
  obtain ⟨r, hr, h⟩ := Option.bind_eq_some_iff.mp h
  obtain ⟨l, hl, heq⟩ := Option.map_eq_some_iff.mp h
  obtain ⟨-, rfl⟩ := Prod.mk.inj heq
  unfold Reads.tokenOf
  rw [hr, Option.bind_some, (Option.filter_eq_some_iff.mp hl).1]
  rfl

/-- No two reads have one token, every token a tenant holds is that of a read which has not
dropped it, and no tenant holds more than its cap. -/
structure LeasesKept (cap : Nat) (s : Reads T) : Prop where
  drawn : ∀ i k, s.tokenOf i = some k → k < s.drawn
  distinct : ∀ i j k, s.tokenOf i = some k → s.tokenOf j = some k → i = j
  owned : ∀ tenant k, k ∈ (s.leases tenant).map Prod.fst → ∃ i, s.ownOf i = some (tenant, k)
  keys : ∀ tenant, ((s.leases tenant).map Prod.fst).Nodup
  cap : ∀ tenant, ((s.leases tenant).map Prod.fst).length ≤ cap

variable {s' : Reads T}

omit [DecidableEq T] in
theorem LeasesKept.shrink (h : LeasesKept cap s) (hdrawn : s'.drawn = s.drawn)
    (htoken : ∀ i, s'.tokenOf i = s.tokenOf i) (hown : ∀ i, s'.ownOf i = s.ownOf i)
    (hless : ∀ tenant, ((s'.leases tenant).map Prod.fst).Sublist ((s.leases tenant).map Prod.fst)) :
    LeasesKept cap s' where
  drawn i k hk := by
    rw [htoken] at hk
    rw [hdrawn]
    exact h.drawn i k hk
  distinct i j k hi hj := by
    rw [htoken] at hi hj
    exact h.distinct i j k hi hj
  owned tenant k hk := by
    obtain ⟨i, hi⟩ := h.owned tenant k ((hless tenant).mem hk)
    exact ⟨i, (hown i).trans hi⟩
  keys tenant := (h.keys tenant).sublist (hless tenant)
  cap tenant := Nat.le_trans (hless tenant).length_le (h.cap tenant)

section Views
omit [DecidableEq T]

variable {s : Reads T} {i : Nat} {r : Read T}

theorem Reads.goto_at (h : s.reads[i]? = some r) (place : Place) :
    (s.goto i r place).reads[i]? = some { r with place } :=
  Parties.moveOne_at h _

theorem Reads.goto_other (s : Reads T) {j : Nat} (hj : j ≠ i) (r : Read T) (place : Place) :
    (s.goto i r place).reads[j]? = s.reads[j]? :=
  Parties.moveOne_other s.reads (Ne.symm hj) _

theorem Reads.views_goto (h : s.reads[i]? = some r) {place : Place}
    (htoken : place.lease?.map (·.token) = r.place.lease?.map (·.token))
    (hown : (place.lease?.filter (·.ownsToken)).map (·.token) =
      (r.place.lease?.filter (·.ownsToken)).map (·.token))
    (j : Nat) :
    (s.goto i r place).tokenOf j = s.tokenOf j ∧ (s.goto i r place).ownOf j = s.ownOf j := by
  have hpair : ∀ o : Option Lease, o.map (r.tenant, ·.token) = (o.map (·.token)).map (r.tenant, ·) :=
    fun o => by cases o <;> rfl
  unfold Reads.tokenOf Reads.ownOf
  by_cases hj : j = i
  · subst hj
    rw [s.goto_at h, h]
    simp only [Option.bind_some, hpair, htoken, hown, and_self]
  · rw [s.goto_other hj]
    exact ⟨rfl, rfl⟩

theorem Reads.views_arrive (s : Reads T) (tenant : T) (j : Nat) :
    Reads.tokenOf { s with reads := s.reads ++ [⟨tenant, .rating⟩] } j = s.tokenOf j ∧
      Reads.ownOf { s with reads := s.reads ++ [⟨tenant, .rating⟩] } j = s.ownOf j := by
  unfold Reads.tokenOf Reads.ownOf
  rcases Nat.lt_trichotomy j s.reads.length with hlt | rfl | hgt
  · simp [List.getElem?_append_left hlt]
  · simp [Place.lease?]
  · have hnew : (s.reads ++ [(⟨tenant, .rating⟩ : Read T)])[j]? = none := by
      apply List.getElem?_eq_none
      simp
      omega
    simp [hnew, List.getElem?_eq_none (Nat.le_of_lt hgt)]

theorem Reads.views_none (h : s.reads[i]? = some r) {place : Place} (hr : r.place.lease? = none)
    (hplace : place.lease? = none) (j : Nat) :
    (s.goto i r place).tokenOf j = s.tokenOf j ∧ (s.goto i r place).ownOf j = s.ownOf j :=
  Reads.views_goto h (by rw [hr, hplace]) (by rw [hr, hplace]) j

end Views

variable {r : Read T}

omit [DecidableEq T] in
theorem LeasesKept.goto (h : LeasesKept cap s) {place : Place}
    (hviews : ∀ j, (s.goto i r place).tokenOf j = s.tokenOf j ∧ (s.goto i r place).ownOf j = s.ownOf j)
    (hreads : s'.reads = (s.goto i r place).reads) (hleases : s'.leases = s.leases)
    (hdrawn : s'.drawn = s.drawn) : LeasesKept cap s' := by
  apply h.shrink hdrawn
  · intro j
    unfold Reads.tokenOf
    rw [hreads]
    exact (hviews j).1
  · intro j
    unfold Reads.ownOf
    rw [hreads]
    exact (hviews j).2
  · intro tenant
    rw [hleases]

section
variable (h : LeasesKept cap s) {now : Time} (hr : s.reads[i]? = some r)
    (hclock : r.place = .withClock now)
include h hr hclock

theorem LeasesKept.atCap :
    LeasesKept cap
      { s.goto i r .givingBack with
        leases := Function.update s.leases r.tenant
          ((s.leases r.tenant).filter (now < ·.2)) } := by
  have hviews := @Reads.views_none _ s i r hr .givingBack (by rw [hclock]; rfl) rfl
  refine h.shrink rfl ?_ ?_ ?_
  · exact fun j => (hviews j).1
  · exact fun j => (hviews j).2
  · intro tenant
    show ((Function.update s.leases r.tenant _ tenant).map Prod.fst).Sublist _
    by_cases ht : tenant = r.tenant
    · subst ht
      rw [Function.update_self]
      exact List.filter_sublist.map _
    · rw [Function.update_of_ne ht]

theorem LeasesKept.lease (hcap : ((s.leases r.tenant).filter (now < ·.2)).length < cap) :
    LeasesKept cap
      { s.goto i r (.admitted (Lease.admitted s.drawn)) with
        leases := Function.update s.leases r.tenant
          (Assoc.assign ((s.leases r.tenant).filter (now < ·.2)) s.drawn (now + tenantLeaseTtl))
        drawn := s.drawn + 1 } := by
  let s' : Reads T := s.goto i r (.admitted (Lease.admitted s.drawn))
  have hat : s'.reads[i]? = some { r with place := .admitted (Lease.admitted s.drawn) } :=
    s.goto_at hr _
  have hother : ∀ {j}, j ≠ i → s'.reads[j]? = s.reads[j]? := fun hj => s.goto_other hj r _
  have htoken : s'.tokenOf i = some s.drawn := by
    unfold Reads.tokenOf
    rw [hat]
    rfl
  have htoken' : ∀ {j}, j ≠ i → s'.tokenOf j = s.tokenOf j := by
    intro j hj
    unfold Reads.tokenOf
    rw [hother hj]
  have hnot : s.ownOf i = none := by
    unfold Reads.ownOf
    rw [hr, Option.bind_some, hclock]
    rfl
  -- the token is new to the tenant
  have hnew : s.drawn ∉ ((s.leases r.tenant).filter (now < ·.2)).map Prod.fst := by
    intro hmem
    obtain ⟨j, hj⟩ := h.owned r.tenant s.drawn ((List.filter_sublist.map _).mem hmem)
    exact Nat.lt_irrefl _ (h.drawn j _ (Reads.tokenOf_of_ownOf hj))
  have hsub : (((s.leases r.tenant).filter (now < ·.2)).map Prod.fst).Sublist
    ((s.leases r.tenant).map Prod.fst) := List.filter_sublist.map _
  rw [Assoc.assign_of_not_mem hnew]
  constructor
  · intro j k hk
    show k < s.drawn + 1
    change s'.tokenOf j = some k at hk
    by_cases hj : j = i
    · subst hj
      obtain rfl := Option.some.inj (htoken.symm.trans hk)
      exact Nat.lt_succ_self _
    · rw [htoken' hj] at hk
      exact Nat.lt_succ_of_lt (h.drawn j k hk)
  · intro j j' k hk hk'
    change s'.tokenOf j = some k at hk
    change s'.tokenOf j' = some k at hk'
    by_cases hj : j = i <;> by_cases hj' : j' = i
    · rw [hj, hj']
    · subst hj
      obtain rfl := Option.some.inj (htoken.symm.trans hk)
      rw [htoken' hj'] at hk'
      exact absurd (h.drawn j' _ hk') (Nat.lt_irrefl _)
    · subst hj'
      obtain rfl := Option.some.inj (htoken.symm.trans hk')
      rw [htoken' hj] at hk
      exact absurd (h.drawn j _ hk) (Nat.lt_irrefl _)
    · rw [htoken' hj] at hk
      rw [htoken' hj'] at hk'
      exact h.distinct j j' k hk hk'
  · intro tenant k hk
    change k ∈ (Function.update s.leases r.tenant _ tenant).map Prod.fst at hk
    show ∃ j, s'.ownOf j = some (tenant, k)
    have hold : ∀ {k'}, k' ∈ (s.leases tenant).map Prod.fst →
        ∃ j, s'.ownOf j = some (tenant, k') := by
      intro k' hk'
      obtain ⟨j, hj⟩ := h.owned tenant k' hk'
      have hji : j ≠ i := by
        rintro rfl
        rw [hnot] at hj
        cases hj
      refine ⟨j, ?_⟩
      unfold Reads.ownOf
      rw [hother hji]
      exact hj
    by_cases ht : tenant = r.tenant
    · subst ht
      rw [Function.update_self, List.map_append, List.mem_append] at hk
      rcases hk with hk | hk
      · exact hold (hsub.mem hk)
      · obtain rfl : k = s.drawn := by simpa using hk
        refine ⟨i, ?_⟩
        unfold Reads.ownOf
        rw [hat]
        rfl
    · rw [Function.update_of_ne ht] at hk
      exact hold hk
  · intro tenant
    show ((Function.update s.leases r.tenant _ tenant).map Prod.fst).Nodup
    by_cases ht : tenant = r.tenant
    · subst ht
      rw [Function.update_self, List.map_append]
      refine List.nodup_append.mpr ⟨(h.keys _).sublist hsub, List.nodup_singleton _, ?_⟩
      rintro k hk k' hk' rfl
      obtain rfl : k = s.drawn := by simpa using hk'
      exact hnew hk
    · rw [Function.update_of_ne ht]
      exact h.keys tenant
  · intro tenant
    show ((Function.update s.leases r.tenant _ tenant).map Prod.fst).length ≤ cap
    by_cases ht : tenant = r.tenant
    · subst ht
      rw [Function.update_self, List.length_map, List.length_append]
      exact hcap
    · rw [Function.update_of_ne ht]
      exact h.cap tenant

end

variable {l : Lease}

theorem LeasesKept.dropLease (h : LeasesKept cap s) (hr : s.reads[i]? = some r)
    (hl : r.place = .admitted l) : LeasesKept cap (s.dropLease i r l) := by
  let s' : Reads T := s.goto i r (.admitted { l with release := .dropped })
  have hat : s'.reads[i]? = some { r with place := .admitted { l with release := .dropped } } :=
    s.goto_at hr _
  have htoken : s.tokenOf i = some l.token := by
    unfold Reads.tokenOf
    rw [hr, Option.bind_some, hl]
    rfl
  have htokens : ∀ j, s'.tokenOf j = s.tokenOf j := by
    intro j
    by_cases hj : j = i
    · rw [hj, htoken]
      unfold Reads.tokenOf
      rw [hat]
      rfl
    · unfold Reads.tokenOf
      rw [s.goto_other hj]
  have hsub : ∀ tenant, ((s.leases.release r.tenant l.token tenant).map Prod.fst).Sublist
      ((s.leases tenant).map Prod.fst) := by
    intro tenant
    unfold TenantLeases.release
    by_cases ht : tenant = r.tenant
    · subst ht
      rw [Function.update_self]
      exact List.filter_sublist.map _
    · rw [Function.update_of_ne ht]
  constructor
  · intro j k hk
    change s'.tokenOf j = some k at hk
    rw [htokens] at hk
    exact h.drawn j k hk
  · intro j j' k hk hk'
    change s'.tokenOf j = some k at hk
    change s'.tokenOf j' = some k at hk'
    rw [htokens] at hk hk'
    exact h.distinct j j' k hk hk'
  · intro tenant k hk
    change k ∈ (s.leases.release r.tenant l.token tenant).map Prod.fst at hk
    obtain ⟨j, hj⟩ := h.owned tenant k ((hsub tenant).mem hk)
    -- its owner is another read: this one's token went
    have hji : j ≠ i := by
      rintro rfl
      have hkl : l.token = k := Option.some.inj (htoken.symm.trans (Reads.tokenOf_of_ownOf hj))
      have ht : tenant = r.tenant := by
        unfold Reads.ownOf at hj
        rw [hr, Option.bind_some] at hj
        obtain ⟨_, _, heq⟩ := Option.map_eq_some_iff.mp hj
        exact (Prod.mk.inj heq).1.symm
      subst ht hkl
      unfold TenantLeases.release at hk
      rw [Function.update_self] at hk
      obtain ⟨e, he, hek⟩ := List.mem_map.mp hk
      exact of_decide_eq_true (List.mem_filter.mp he).2 hek
    refine ⟨j, ?_⟩
    show s'.ownOf j = _
    unfold Reads.ownOf
    rw [s.goto_other hji]
    exact hj
  · exact fun tenant => (h.keys tenant).sublist (hsub tenant)
  · exact fun tenant => Nat.le_trans (hsub tenant).length_le (h.cap tenant)

theorem TenantLeases.renew_keys (leases : TenantLeases T) (tenant tenant' : T) (token : Nat)
    (clock : Time) :
    (leases.renew tenant token clock tenant').map Prod.fst = (leases tenant').map Prod.fst := by
  unfold TenantLeases.renew
  split
  · rename_i hmem
    by_cases ht : tenant' = tenant
    · subst ht
      rw [Function.update_self, Assoc.map_fst_assign, if_pos hmem]
    · rw [Function.update_of_ne ht]
  · rfl

variable {a : ReadAction T} {es : List GateEvent}

theorem LeasesKept.step (h : LeasesKept cap s) (hs : Steps cap s a s' es) : LeasesKept cap s' := by
  cases hs with
  | idle => exact h
  | arrive tenant =>
    refine h.shrink rfl ?_ ?_ ?_
    · exact fun j => (s.views_arrive tenant j).1
    · exact fun j => (s.views_arrive tenant j).2
    · exact fun _ => List.Sublist.refl _
  | @move i r hr m =>
    refine h.goto (Reads.views_goto hr ?_ ?_) rfl rfl rfl
    · rw [Place.after_lease?]
      cases r.place.lease? with
      | none => rfl
      | some l => exact congrArg some (l.after_keeps m).1
    · rw [Place.after_lease?]
      cases r.place.lease? with
      | none => rfl
      | some l =>
        obtain ⟨htoken, howns, -⟩ := l.after_keeps m
        simp only [Option.map_some, Option.filter_some, howns]
        split
        · exact congrArg some htoken
        · rfl
  | full hr hasking | slot hr hasking =>
    exact h.goto (Reads.views_none hr (by rw [hasking]; rfl) rfl) rfl rfl rfl
  | atCap hr hclock => exact h.atCap hr hclock
  | lease hr hclock hcap => exact h.lease hr hclock hcap
  | giveBack hr hgiving =>
    exact h.goto (Reads.views_none hr (by rw [hgiving]; rfl) rfl) rfl rfl rfl
  | dropLease hr hl => exact h.dropLease hr hl
  | @giveSlot i r l hr hl hdropped =>
    refine h.goto (Reads.views_goto hr ?_ ?_) rfl rfl rfl
    · rw [hl]
      rfl
    -- a dropped lease is no longer counted, so the slot goes back without a change to the leases
    · have hold : l.ownsToken = false := by
        unfold Lease.ownsToken
        rw [hdropped]
        rfl
      rw [hl]
      show _ = (Option.filter _ (some l)).map _
      rw [Option.filter_some, hold]
      rfl
  | @renew i r l hr hl =>
    refine h.shrink rfl ?_ ?_ ?_
    · exact fun _ => rfl
    · exact fun _ => rfl
    · intro tenant
      show ((s.leases.renew r.tenant l.token s.clock tenant).map Prod.fst).Sublist _
      rw [TenantLeases.renew_keys]
  | tick => exact ⟨h.drawn, h.distinct, h.owned, h.keys, h.cap⟩

/-! ## Releases and renewals -/

/-- A step that releases or renews the lease of read `i`. -/
def ReadAction.endsOrRenews (i : Nat) : ReadAction T → Bool
  | .move j .leave | .move j .release | .dropLease j | .giveSlot j | .renew j => j = i
  | _ => false

theorem Assoc.get_filter_ne {d : List (Nat × Time)} {k k' : Nat} (hk : k' ≠ k) :
    Assoc.get (d.filter (·.1 ≠ k)) k' = Assoc.get d k' := by
  induction d with
  | nil => rfl
  | cons e d ih =>
    by_cases he : e.1 = k
    · rw [List.filter_cons_of_neg (by simpa using he), ih, Assoc.get_cons,
        if_neg (fun h => hk (h.symm.trans he))]
    · rw [List.filter_cons_of_pos (by simpa using he), Assoc.get_cons, Assoc.get_cons, ih]

omit [DecidableEq T] in
theorem Reads.expiry_congr {j : Nat} (hread : s'.reads[j]? = s.reads[j]?)
    (hget : ∀ tenant k, s.tokenOf j = some k →
      Assoc.get (s'.leases tenant) k = Assoc.get (s.leases tenant) k) :
    s'.expiry j = s.expiry j := by
  unfold Reads.expiry
  rw [hread]
  cases hr : s.reads[j]? with
  | none => rfl
  | some r =>
    cases hl : r.place.lease? with
    | none => simp only [Option.bind_some, hl, Option.bind_none]
    | some l =>
      have htoken : s.tokenOf j = some l.token := by
        unfold Reads.tokenOf
        rw [hr, Option.bind_some, hl]
        rfl
      simp only [Option.bind_some, hl]
      exact hget r.tenant l.token htoken

theorem others_expiry (h : LeasesKept cap s) (hs : Steps cap s a s' es) {j : Nat}
    (ha : a.endsOrRenews i = true) (hj : j ≠ i) : s'.expiry j = s.expiry j := by
  -- another read has another token
  have hother : ∀ {r : Read T} {l : Lease} {k : Nat}, s.reads[i]? = some r →
      r.place = .admitted l → s.tokenOf j = some k → l.token ≠ k := by
    rintro r l _ hr hl hk rfl
    have hi : s.tokenOf i = some l.token := by
      unfold Reads.tokenOf
      rw [hr, Option.bind_some, hl]
      rfl
    exact hj (h.distinct j i _ hk hi)
  cases hs with
  | idle => rfl
  | arrive | full | slot | atCap | lease | giveBack | tick => cases ha
  | @move i' r hr m =>
    obtain rfl : i' = i := by
      cases m with
      | leave => exact of_decide_eq_true ha
      | release => exact of_decide_eq_true ha
      | _ => cases ha
    exact Reads.expiry_congr (s.goto_other hj _ _) fun _ _ _ => rfl
  | @dropLease i' r l hr hl hmarked =>
    obtain rfl : i' = i := of_decide_eq_true ha
    refine Reads.expiry_congr (s.goto_other hj _ _) fun tenant k hk => ?_
    show Assoc.get (s.leases.release r.tenant l.token tenant) k = _
    unfold TenantLeases.release
    by_cases ht : tenant = r.tenant
    · subst ht
      rw [Function.update_self]
      exact Assoc.get_filter_ne (hother hr hl hk).symm
    · rw [Function.update_of_ne ht]
  | @giveSlot i' r l hr hl hdropped =>
    obtain rfl : i' = i := of_decide_eq_true ha
    exact Reads.expiry_congr (s.goto_other hj _ _) fun _ _ _ => rfl
  | @renew i' r l hr hl =>
    obtain rfl : i' = i := of_decide_eq_true ha
    refine Reads.expiry_congr rfl fun tenant k hk => ?_
    show Assoc.get (s.leases.renew r.tenant l.token s.clock tenant) k = _
    unfold TenantLeases.renew
    split
    · by_cases ht : tenant = r.tenant
      · subst ht
        rw [Function.update_self, Assoc.get_assign, if_neg (hother hr hl hk)]
      · rw [Function.update_of_ne ht]
    · rfl

/-- Each unexpired lease of a tenant has its own token in what the tenant holds. -/
theorem LeasesKept.unexpired (h : LeasesKept cap s) (tenant : T) :
    (s.unexpired tenant).length ≤ cap := by
  let token : Nat → Nat := fun i => (s.tokenOf i).getD 0
  have hsome : ∀ i ∈ s.unexpired tenant,
      s.tokenOf i = some (token i) ∧ token i ∈ (s.leases tenant).map Prod.fst := by
    intro i hi
    have hcond := (List.mem_filter.mp hi).2
    rw [Bool.and_eq_true, Option.any_eq_true, Option.any_eq_true] at hcond
    obtain ⟨⟨r, hr, htenant⟩, e, he, -⟩ := hcond
    obtain rfl := of_decide_eq_true htenant
    unfold Reads.expiry at he
    rw [hr, Option.bind_some] at he
    obtain ⟨l, hl, hget⟩ := Option.bind_eq_some_iff.mp he
    have htoken : s.tokenOf i = some l.token := by
      unfold Reads.tokenOf
      rw [hr, Option.bind_some, hl]
      rfl
    have heq : token i = l.token := by
      show (s.tokenOf i).getD 0 = _
      rw [htoken]
      rfl
    rw [heq]
    exact ⟨htoken, List.mem_map.mpr ⟨_, Assoc.mem_of_get hget, rfl⟩⟩
  have hnodup : ((s.unexpired tenant).map token).Nodup := by
    apply List.Nodup.map_on
    · intro i hi j hj heq
      have hi' := (hsome i hi).1
      rw [heq] at hi'
      exact h.distinct i j _ hi' (hsome j hj).1
    · exact List.nodup_range.filter _
  have hsub : (s.unexpired tenant).map token ⊆ (s.leases tenant).map Prod.fst := by
    intro k hk
    obtain ⟨i, hi, rfl⟩ := List.mem_map.mp hk
    exact (hsome i hi).2
  have hlength := (List.subperm_of_subset hnodup hsub).length_le
  rw [List.length_map] at hlength
  exact Nat.le_trans hlength (h.cap tenant)

/-! ## Every run -/

omit [DecidableEq T] in
theorem sound_goto (h : ∀ r ∈ s.reads, ∀ l, r.place = .admitted l → l.Sound) {place : Place}
    (hplace : ∀ l, place = .admitted l → l.Sound) :
    ∀ r' ∈ (s.goto i r place).reads, ∀ l, r'.place = .admitted l → l.Sound := by
  intro r' hr' l hl
  rcases List.mem_or_eq_of_mem_set hr' with hmem | rfl
  · exact h r' hmem l hl
  · exact hplace l hl

theorem Lease.Sound.goOn (h : l.Sound) (hl : l.release ≠ .held) {release : Release}
    (hrelease : release ≠ .held) : Lease.Sound { l with release } :=
  ⟨h.early, h.late, h.callback, fun _ => h.worker hl, fun _ => h.request hl,
    fun _ _ => hrelease, fun _ => hrelease⟩

theorem sound_step (h : ∀ r ∈ s.reads, ∀ l, r.place = .admitted l → l.Sound)
    (hs : Steps cap s a s' es) : ∀ r ∈ s'.reads, ∀ l, r.place = .admitted l → l.Sound := by
  cases hs with
  | idle => exact h
  | tick => exact h
  | renew => exact h
  | arrive tenant =>
    intro r hr l hl
    rcases List.mem_append.mp hr with hr | hr
    · exact h r hr l hl
    · rw [List.mem_singleton.mp hr] at hl
      cases hl
  | @move i r hr m =>
    apply sound_goto h
    intro l hl
    have hlease : (r.place.after s.clock m).lease? = some l := by
      rw [hl]
      rfl
    rw [Place.after_lease?] at hlease
    obtain ⟨l₀, hl₀, rfl⟩ := Option.map_eq_some_iff.mp hlease
    -- the read had a lease before it moved
    have hplace : r.place = .admitted l₀ := by
      cases hp : r.place with
      | admitted l₁ =>
        rw [hp] at hl₀
        exact congrArg Place.admitted (Option.some.inj hl₀)
      | _ =>
        rw [hp] at hl₀
        cases hl₀
    exact (h r (List.mem_of_getElem? hr) l₀ hplace).after m
  | full | slot | atCap | giveBack => exact sound_goto h fun _ hl => by cases hl
  | lease =>
    apply sound_goto h
    rintro l hl
    obtain rfl := Place.admitted.inj hl
    exact Lease.sound_admitted _
  | @dropLease i r l hr hl hmarked =>
    apply sound_goto h
    rintro l' hl'
    obtain rfl := Place.admitted.inj hl'
    have hsound := h r (List.mem_of_getElem? hr) l hl
    exact hsound.goOn (by rw [hmarked]; exact Release.noConfusion) Release.noConfusion
  | @giveSlot i r l hr hl hdropped =>
    apply sound_goto h
    rintro l' hl'
    obtain rfl := Place.admitted.inj hl'
    have hsound := h r (List.mem_of_getElem? hr) l hl
    exact hsound.goOn (by rw [hdropped]; exact Release.noConfusion) Release.noConfusion

/-- What every run of the result reads keeps. -/
structure ReadsKept (cap workers : Nat) (c : Config (Reads T) GateEvent) : Prop where
  gate : GateKept workers c
  leases : LeasesKept cap c.state
  sound : ∀ r ∈ c.state.reads, ∀ l, r.place = .admitted l → l.Sound

theorem readsKept (cap workers : Nat) (acts : List (ReadAction T)) :
    ReadsKept cap workers ((resultReads cap workers).after acts) := by
  apply (resultReads (T := T) cap workers).run_induct (P := ReadsKept cap workers)
  · rintro c a ⟨hgate, hleases, hsound⟩
    have hs : Steps cap c.state a _ _ := steps_step c.state a
    exact ⟨hgate.step hs, hleases.step hs, sound_step hsound hs⟩
  · refine ⟨⟨rfl, rfl, Nat.zero_le _, fun _ => rfl, fun _ => rfl⟩, ⟨?_, ?_, ?_, ?_, ?_⟩, ?_⟩
    · intro i k hk
      cases hk
    · intro i j k hk
      cases hk
    · intro tenant k hk
      cases hk
    · exact fun _ => List.nodup_nil
    · exact fun _ => Nat.zero_le _
    · intro r hr
      cases hr

omit [DecidableEq T] in
/-- The reads that hold a slot: those with a lease not yet released, and those between two
steps. -/
theorem Reads.countAt_holdsSlot (s : Reads T) :
    s.countAt Place.holdsSlot = s.unreleased + s.midStep := by
  have hdisjoint : ∀ p : Place, p.holdsSlot.toNat = p.unreleased.toNat + p.midStep.toNat := by
    intro p
    cases p with
    | admitted l => cases h : l.release <;> simp [Place.holdsSlot, Place.unreleased, Place.midStep, h]
    | _ => rfl
  unfold Reads.unreleased Reads.midStep Reads.countAt
  induction s.reads with
  | nil => rfl
  | cons r rs ih =>
    have := hdisjoint r.place
    simp only [List.countP_cons]
    cases hu : r.place.unreleased <;> cases hm : r.place.midStep <;>
      simp_all [Place.holdsSlot] <;> omega

omit [DecidableEq T] in
theorem Reads.leaseOf_eq_some (h : s.leaseOf i = some l) :
    ∃ r, s.reads[i]? = some r ∧ r.place = .admitted l := by
  obtain ⟨r, hr, hl⟩ := Option.bind_eq_some_iff.mp h
  refine ⟨r, hr, ?_⟩
  cases hp : r.place with
  | admitted l' =>
    rw [hp] at hl
    exact congrArg Place.admitted (Option.some.inj hl)
  | _ =>
    rw [hp] at hl
    cases hl

/-- In every run of one process with one configuration: the gate's counter is the number of
admitted leases not yet released and of reads with a slot that are between two steps, and
never above the number of workers; a lease takes one slot and gives it back once, when its
release is through, which it is once the request is over and a worker's callback ran, and
the release of a lease that was handed off comes after its worker is done; a rejected read
gave what it took, and every token held is that of an admitted read of its tenant which has
not dropped it; no tenant has more unexpired leases than its cap; and a release or renewal of
one lease leaves the expiry of every other. -/
theorem result_read_slots (cap workers : Nat) (acts : List (ReadAction T)) :
    let c := (resultReads cap workers).after acts
    (c.state.gate.inUse = c.state.unreleased + c.state.midStep ∧
      c.state.gate.inUse ≤ workers) ∧
    (∀ i lease, c.state.leaseOf i = some lease →
      c.events.count (.taken i) = 1 ∧
      c.events.count (.given i) = (if lease.release = .freed then 1 else 0) ∧
      (lease.Settled → lease.release = .freed) ∧
      (lease.handedOff = true → lease.release ≠ .held → lease.job = .ended)) ∧
    (∀ (i : Nat) tenant scope, c.state.reads[i]? = some ⟨tenant, .rejected scope⟩ →
      c.events.count (.given i) = c.events.count (.taken i)) ∧
    (∀ tenant e, e ∈ c.state.leases tenant → ∃ (i : Nat) (lease : Lease),
      c.state.reads[i]? = some ⟨tenant, .admitted lease⟩ ∧ lease.token = e.1 ∧
        lease.ownsToken = true) ∧
    (∀ tenant, (c.state.unexpired tenant).length ≤ cap) ∧
    ∀ i a, a.endsOrRenews i = true → ∀ j, j ≠ i →
      (c.state.step cap a).1.expiry j = c.state.expiry j := by
  intro c
  obtain ⟨hgate, hleases, hsound⟩ := readsKept cap workers acts
  refine ⟨⟨hgate.slots.trans (Reads.countAt_holdsSlot _), hgate.within⟩, ?_, ?_, ?_, ?_, ?_⟩
  · intro i lease hlease
    obtain ⟨r, hr, hplace⟩ := Reads.leaseOf_eq_some hlease
    have hs := hsound r (List.mem_of_getElem? hr) lease hplace
    refine ⟨?_, ?_, ?_, fun hhanded hreleased => hs.worker hreleased hhanded⟩
    · rw [hgate.taken, Reads.of_at hr, hplace]
      rfl
    · rw [hgate.given, Reads.of_at hr, hplace]
      rfl
    · rintro ⟨hover, hrun, hmarked, hdropped⟩
      -- a job that was handed off frees the lease when its run ends, any other read when it is over
      have hnot : lease.release ≠ .held := by
        cases hhanded : lease.handedOff with
        | false => exact hs.ended hover hhanded
        | true => exact hs.run (hrun hhanded)
      cases hrelease : lease.release with
      | held => exact absurd hrelease hnot
      | marked => exact absurd hrelease hmarked
      | dropped => exact absurd hrelease hdropped
      | freed => rfl
  · intro i tenant scope hr
    rw [hgate.taken, hgate.given, Reads.of_at hr, Reads.of_at hr]
    cases scope <;> rfl
  · intro tenant e he
    -- every lease of the tenant is the one that some admitted read holds
    obtain ⟨i, hi⟩ := hleases.owned tenant e.1 (List.mem_map.mpr ⟨e, he, rfl⟩)
    obtain ⟨r, hr, hown⟩ := Option.bind_eq_some_iff.mp hi
    obtain ⟨l, hl, heq⟩ := Option.map_eq_some_iff.mp hown
    obtain ⟨rfl, htoken⟩ := Prod.mk.inj heq
    obtain ⟨hl, howns⟩ := Option.filter_eq_some_iff.mp hl
    obtain ⟨r', hr', hplace⟩ := Reads.leaseOf_eq_some (s := c.state) (i := i) (l := l)
      (by unfold Reads.leaseOf; rw [hr]; exact hl)
    obtain rfl := Option.some.inj (hr.symm.trans hr')
    refine ⟨i, l, ?_, htoken, howns⟩
    rw [hr, ← hplace]
  · exact hleases.unexpired
  · intro i a ha j hj
    exact others_expiry hleases (steps_step c.state a) ha hj

/-- Between the flag and the slot a lease is released and its slot still counted. -/
theorem slot_outlives_release :
    let acts : List (ReadAction Unit) := [.arrive (), .move 0 (.rated true), .acquireSlot 0,
      .move 0 .readClock, .acquireLease 0, .move 0 (.fetched false), .move 0 .leave]
    let s := ((resultReads 4 4).after acts).state
    s.gate.inUse = 1 ∧ s.unreleased = 0 ∧ (s.leaseOf 0).any (·.release ≠ .held) = true := by
  decide

end Steps
end Meho.Results
