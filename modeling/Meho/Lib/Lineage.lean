import Mathlib.Data.List.Nodup
import Mathlib.Data.List.Perm.Subperm
import Mathlib.Data.Nat.Find

/- Points with at most one parent.

`up k x` is the point `k` links above `x`. A walk down that passes over the points of the
path it came by meets exactly the points below its start, each once (`mem_visit`,
`nodup_visit`), for there is one way up from each. Where the points are promoted in turn to
starts of a walk, unless an earlier walk met them, those are promoted that lead to no earlier
point (`mem_promoted`). -/
namespace Meho.Lib.Lineage

section Links
variable {ν : Type} (parent : ν → Option ν)

/-- The point `k` links above. -/
def up : Nat → ν → Option ν
  | 0, x => some x
  | k + 1, x => (up k x).bind parent

/-- The links lead from the point to `r`. -/
def Leads (x r : ν) : Prop := ∃ k, up parent k x = some r

variable {parent}

theorem up_add (j k : Nat) (x : ν) : up parent (j + k) x = (up parent j x).bind (up parent k) := by
  induction k with
  | zero =>
    show up parent j x = (up parent j x).bind some
    simp
  | succ k ih =>
    show (up parent (j + k) x).bind parent = (up parent j x).bind fun y => (up parent k y).bind parent
    rw [ih, Option.bind_assoc]

variable {x y : ν}

theorem eq_of_end {k : Nat} (hend : parent x = none) (h : up parent k x = some y) : y = x := by
  induction k generalizing y with
  | zero => exact (Option.some.inj h).symm
  | succ k ih =>
    obtain ⟨z, hz, hparent⟩ := Option.bind_eq_some_iff.1 h
    rw [ih hz, hend] at hparent
    cases hparent

theorem up_sub {j k : Nat} {r : ν} (hjk : j ≤ k) (hy : up parent j x = some y)
    (hr : up parent k x = some r) : up parent (k - j) y = some r := by
  rw [← Nat.add_sub_cancel' hjk, up_add, hy] at hr
  exact hr

theorem Leads.refl (x : ν) : Leads parent x x := ⟨0, rfl⟩

theorem Leads.trans {z : ν} (h : Leads parent x y) (h' : Leads parent y z) : Leads parent x z := by
  obtain ⟨j, hj⟩ := h
  obtain ⟨k, hk⟩ := h'
  refine ⟨j + k, ?_⟩
  rw [up_add, hj]
  exact hk

theorem up_between {j k : Nat} {z : ν} (hy : up parent j x = some y) (hz : up parent k x = some z) :
    (∃ i ≤ k, up parent i y = some z) ∨ ∃ i ≤ j, up parent i z = some y := by
  rcases Nat.le_total j k with h | h
  · exact .inl ⟨k - j, by omega, up_sub h hy hz⟩
  · exact .inr ⟨j - k, by omega, up_sub h hz hy⟩

/-- What has points above it in only finitely many ways is met within as many links. -/
theorem Leads.short {points : List ν} (hpoints : ∀ x, (parent x).isSome → x ∈ points) {r : ν}
    (h : Leads parent x r) : ∃ k ≤ points.length, up parent k x = some r := by
  classical
  have hex : ∃ k, up parent k x = some r := h
  refine ⟨Nat.find hex, ?_, Nat.find_spec hex⟩
  have hdefined : ∀ j ≤ Nat.find hex, ∃ y, up parent j x = some y := by
    intro j hj
    cases hy : up parent j x with
    | some y => exact ⟨y, rfl⟩
    | none =>
      have hend := Nat.find_spec hex
      rw [← Nat.add_sub_cancel' hj, up_add, hy] at hend
      cases hend
  -- where the way repeats, it came to its end before
  have hrepeat : ∀ i j, i < j → j < Nat.find hex → up parent i x ≠ up parent j x := by
    intro i j hij hj heq
    obtain ⟨y, hy⟩ := hdefined i (by omega)
    apply Nat.find_min hex (m := i + (Nat.find hex - j)) (by omega)
    rw [up_add, hy]
    exact up_sub (by omega) (heq.symm.trans hy) (Nat.find_spec hex)
  have hnodup : ((List.range (Nat.find hex)).map fun j => up parent j x).Nodup := by
    refine List.Nodup.map_on ?_ List.nodup_range
    intro i hi j hj heq
    have hi := List.mem_range.1 hi
    have hj := List.mem_range.1 hj
    by_contra hne
    rcases Nat.lt_or_gt_of_ne hne with hlt | hgt
    · exact hrepeat i j hlt hj heq
    · exact hrepeat j i hgt hi heq.symm
  have hsub : ((List.range (Nat.find hex)).map fun j => up parent j x) ⊆ points.map some := by
    intro y hy
    obtain ⟨j, hj, rfl⟩ := List.mem_map.1 hy
    have hlt := List.mem_range.1 hj
    obtain ⟨y, hy⟩ := hdefined j (by omega)
    obtain ⟨z, hz⟩ := hdefined (j + 1) (by omega)
    refine List.mem_map.2 ⟨y, hpoints y ?_, hy.symm⟩
    have hparent : (up parent j x).bind parent = some z := hz
    rw [hy] at hparent
    exact Option.isSome_iff_exists.2 ⟨z, hparent⟩
  have hlength := (hnodup.subperm hsub).length_le
  simpa using hlength

end Links

section Walk
variable {ν : Type} [DecidableEq ν]

/-- The walk down to a depth of `n`, passing over what is on the path it came by. -/
def visit (children : ν → List ν) : Nat → ν → List ν → List ν
  | 0, x, _ => [x]
  | n + 1, x, seen => x :: (children x).flatMap fun child =>
      if child ∈ seen then [] else visit children n child (child :: seen)

variable {children : ν → List ν} {parent : ν → Option ν}

section
variable (hchildren : ∀ p x, x ∈ children p ↔ parent x = some p) {n : Nat} {x c : ν}
include hchildren

theorem mem_visit_seen {seen : List ν} (hc : c ∈ seen) : x ∈ visit children n c seen ↔
      ∃ k ≤ n, up parent k x = some c ∧ ∀ j < k, ∀ y, up parent j x = some y → y ∉ seen := by
  induction n generalizing c seen with
  | zero =>
    constructor
    · intro h
      obtain rfl := List.mem_singleton.1 h
      exact ⟨0, Nat.le_refl 0, rfl, nofun⟩
    · rintro ⟨k, hk, hup, -⟩
      obtain rfl := Nat.le_zero.1 hk
      exact List.mem_singleton.2 (Option.some.inj hup)
  | succ n ih =>
    rw [visit, List.mem_cons, List.mem_flatMap]
    constructor
    · rintro (rfl | ⟨child, hchild, h⟩)
      · exact ⟨0, Nat.zero_le _, rfl, nofun⟩
      · split at h
        · cases h
        · rename_i hnew
          obtain ⟨k, hk, hup, hbelow⟩ := (ih List.mem_cons_self).1 h
          refine ⟨k + 1, by omega, ?_, ?_⟩
          · show (up parent k x).bind parent = some c
            rw [hup]
            exact (hchildren c child).1 hchild
          · intro j hj y hy hseen
            by_cases heq : j = k
            · rw [heq, hup] at hy
              exact hnew (Option.some.inj hy ▸ hseen)
            · exact hbelow j (by omega) y hy (List.mem_cons_of_mem _ hseen)
    · rintro ⟨k, hk, hup, hbelow⟩
      cases k with
      | zero => exact .inl (Option.some.inj hup)
      | succ k =>
        obtain ⟨child, hchild, hparent⟩ := Option.bind_eq_some_iff.1 hup
        have hnew := hbelow k (by omega) child hchild
        refine .inr ⟨child, (hchildren c child).2 hparent, ?_⟩
        rw [if_neg hnew]
        refine (ih List.mem_cons_self).2 ⟨k, by omega, hchild, ?_⟩
        intro j hj y hy hseen
        rcases List.mem_cons.1 hseen with rfl | hseen
        · -- the child is met before, and one link on is the start
          refine hbelow (j + 1) (by omega) c ?_ hc
          show (up parent j x).bind parent = some c
          rw [hy]
          exact hparent
        · exact hbelow j (by omega) y hy hseen

theorem mem_visit : x ∈ visit children n c [c] ↔ ∃ k ≤ n, up parent k x = some c := by
  classical
  rw [mem_visit_seen hchildren List.mem_cons_self]
  constructor
  · rintro ⟨k, hk, hup, -⟩
    exact ⟨k, hk, hup⟩
  · rintro ⟨k, hk, hup⟩
    have hex : ∃ k, up parent k x = some c := ⟨k, hup⟩
    refine ⟨Nat.find hex, Nat.le_trans (Nat.find_min' hex hup) hk, Nat.find_spec hex, ?_⟩
    intro j hj y hy hseen
    obtain rfl := List.mem_singleton.1 hseen
    exact Nat.find_min hex hj hy

end

theorem nodup_visit (hchildren : ∀ p x, x ∈ children p ↔ parent x = some p)
    (hnodup : ∀ p, (children p).Nodup) {n : Nat} {c : ν} {seen : List ν} (hc : c ∈ seen) :
    (visit children n c seen).Nodup := by
  induction n generalizing c seen with
  | zero => exact List.nodup_singleton c
  | succ n ih =>
    -- what the walk meets below a child leads to the child outside the path
    have hbelow : ∀ child x, child ∉ seen → x ∈ visit children n child (child :: seen) →
        ∃ k, up parent k x = some child ∧ ∀ j ≤ k, ∀ y, up parent j x = some y → y ∉ seen := by
      intro child x hnew h
      obtain ⟨k, -, hup, hbelow⟩ := (mem_visit_seen hchildren List.mem_cons_self).1 h
      refine ⟨k, hup, fun j hj y hy hseen => ?_⟩
      by_cases heq : j = k
      · rw [heq, hup] at hy
        exact hnew (Option.some.inj hy ▸ hseen)
      · exact hbelow j (by omega) y hy (List.mem_cons_of_mem _ hseen)
    rw [visit, List.nodup_cons]
    constructor
    · intro h
      obtain ⟨child, -, h⟩ := List.mem_flatMap.1 h
      split at h
      · cases h
      · rename_i hnew
        obtain ⟨k, -, hpath⟩ := hbelow child c hnew h
        exact hpath 0 (Nat.zero_le k) c rfl hc
    · refine List.nodup_flatMap.2 ⟨?_, ?_⟩
      · intro child _
        split
        · exact List.nodup_nil
        · exact ih List.mem_cons_self
      · refine (hnodup c).pairwise_of_forall_ne ?_
        intro a ha b hb hne x hxa hxb
        have haparent := (hchildren c a).1 ha
        have hbparent := (hchildren c b).1 hb
        have hnewa : a ∉ seen := fun h => by simp [h] at hxa
        have hnewb : b ∉ seen := fun h => by simp [h] at hxb
        simp only [hnewa, hnewb, if_false] at hxa hxb
        obtain ⟨j, hj, hpatha⟩ := hbelow a x hnewa hxa
        obtain ⟨k, hk, hpathb⟩ := hbelow b x hnewb hxb
        have hnext : ∀ {i : Nat} {y : ν}, up parent i x = some y → parent y = some c →
            up parent (i + 1) x = some c := by
          intro i y hy hparent
          show (up parent i x).bind parent = some c
          rw [hy]
          exact hparent
        rcases Nat.lt_trichotomy j k with hlt | heq | hgt
        · exact hpathb (j + 1) (by omega) c (hnext hj haparent) hc
        · subst heq
          exact hne (Option.some.inj (hj.symm.trans hk))
        · exact hpatha (k + 1) (by omega) c (hnext hk hbparent) hc

end Walk

section Promotion
variable {ν β : Type} [DecidableEq ν] (name : β → ν) (walk : ν → List ν)

/-- Each in turn starts a walk, unless an earlier walk met it. -/
def promoted : List β → List ν → List β
  | [], _ => []
  | x :: rest, reached =>
    if name x ∈ reached then promoted rest reached
    else x :: promoted rest (reached ++ walk (name x))

variable {name walk} {parent : ν → Option ν}

variable {xs : List β} {reached : List ν}

theorem promoted_congr {walk' : ν → List ν} (hwalk : ∀ x y, y ∈ walk x ↔ y ∈ walk' x)
    {reached' : List ν} (h : ∀ y, y ∈ reached ↔ y ∈ reached') :
    promoted name walk xs reached = promoted name walk' xs reached' := by
  induction xs generalizing reached reached' with
  | nil => rfl
  | cons x xs ih =>
    have hnext : ∀ y, y ∈ reached ++ walk (name x) ↔ y ∈ reached' ++ walk' (name x) := by
      simp [h, hwalk]
    simp only [promoted, h]
    rw [ih h, ih hnext]

variable (name) in
theorem promoted_new (hwalk : ∀ x y, y ∈ walk x ↔ Leads parent y x) :
    (∀ x ∈ promoted name walk xs reached, name x ∉ reached) ∧
      ((promoted name walk xs reached).map name).Nodup := by
  induction xs generalizing reached with
  | nil => exact ⟨nofun, List.nodup_nil⟩
  | cons x xs ih =>
    rw [promoted]
    split
    · exact ih
    · rename_i hnew
      obtain ⟨hout, hnodup⟩ := @ih (reached ++ walk (name x))
      simp only [List.mem_append, not_or] at hout
      refine ⟨?_, ?_⟩
      · rw [List.forall_mem_cons]
        exact ⟨hnew, fun y hy => (hout y hy).1⟩
      · rw [List.map_cons, List.nodup_cons]
        refine ⟨?_, hnodup⟩
        intro hmem
        obtain ⟨y, hy, heq⟩ := List.mem_map.1 hmem
        exact (hout y hy).2 ((hwalk _ _).2 (heq ▸ .refl _))

/-- Promoted is what no walk met before, and what leads to nothing in front of it. -/
theorem mem_promoted (hwalk : ∀ x y, y ∈ walk x ↔ Leads parent y x)
    (hclosed : ∀ y z, Leads parent y z → z ∈ reached → y ∈ reached) {r : β} :
    r ∈ promoted name walk xs reached ↔ name r ∉ reached ∧
      ∃ before after, xs = before ++ r :: after ∧ ∀ z ∈ before, ¬Leads parent (name r) (name z) := by
  induction xs generalizing reached with
  | nil => simp [promoted]
  | cons x xs ih =>
    rw [promoted]
    split
    -- an entry that was met is passed over: what leads to it was met too
    · rename_i hmet
      rw [ih hclosed]
      refine and_congr_right fun hnew => ?_
      constructor
      · rintro ⟨before, after, rfl, hbefore⟩
        refine ⟨x :: before, after, rfl, ?_⟩
        rw [List.forall_mem_cons]
        exact ⟨fun hleads => hnew (hclosed _ _ hleads hmet), hbefore⟩
      · rintro ⟨before, after, heq, hbefore⟩
        cases before with
        | nil =>
          obtain ⟨rfl, rfl⟩ := List.cons.inj heq
          exact absurd hmet hnew
        | cons y before =>
          obtain ⟨rfl, rfl⟩ := List.cons.inj heq
          exact ⟨before, after, rfl, fun z hz => hbefore z (List.mem_cons_of_mem _ hz)⟩
    · rename_i hnew
      -- an entry that is promoted marks all that leads to it, and the set stays closed
      have hclosed' : ∀ y z, Leads parent y z → z ∈ reached ++ walk (name x) →
          y ∈ reached ++ walk (name x) := by
        intro y z hleads hz
        rcases List.mem_append.1 hz with hz | hz
        · exact List.mem_append_left _ (hclosed y z hleads hz)
        · exact List.mem_append_right _ ((hwalk _ _).2 (hleads.trans ((hwalk _ _).1 hz)))
      rw [List.mem_cons, ih hclosed']
      constructor
      · rintro (rfl | ⟨hout, before, after, rfl, hbefore⟩)
        · exact ⟨hnew, [], xs, rfl, nofun⟩
        · simp only [List.mem_append, not_or, hwalk] at hout
          refine ⟨hout.1, x :: before, after, rfl, ?_⟩
          rw [List.forall_mem_cons]
          exact ⟨hout.2, hbefore⟩
      · rintro ⟨hout, before, after, heq, hbefore⟩
        cases before with
        | nil =>
          obtain ⟨rfl, rfl⟩ := List.cons.inj heq
          exact .inl rfl
        | cons y before =>
          obtain ⟨rfl, rfl⟩ := List.cons.inj heq
          rw [List.forall_mem_cons] at hbefore
          refine .inr ⟨?_, before, after, rfl, hbefore.2⟩
          simp only [List.mem_append, not_or, hwalk]
          exact ⟨hout, hbefore.1⟩

variable (name) in
theorem promoted_covers (hwalk : ∀ x y, y ∈ walk x ↔ Leads parent y x) {x : β} (hx : x ∈ xs) :
    name x ∈ reached ∨
      ∃ r ∈ promoted name walk xs reached, Leads parent (name x) (name r) := by
  induction xs generalizing reached with
  | nil => cases hx
  | cons y xs ih =>
    rw [promoted]
    split
    · rename_i hmet
      rcases List.mem_cons.1 hx with rfl | hx
      · exact .inl hmet
      · exact ih hx
    · rcases List.mem_cons.1 hx with rfl | hx
      · exact .inr ⟨x, List.mem_cons_self, .refl _⟩
      · rcases @ih (reached ++ walk (name y)) hx with hmet | ⟨r, hr, hleads⟩
        · rcases List.mem_append.1 hmet with hmet | hmet
          · exact .inl hmet
          · exact .inr ⟨y, List.mem_cons_self, (hwalk _ _).1 hmet⟩
        · exact .inr ⟨r, List.mem_cons_of_mem _ hr, hleads⟩

end Promotion
end Meho.Lib.Lineage
