import Meho.Lib.Tx
import Meho.Policy.GrantWrites

/- One active grant for a key.

`Kept` is the invariant of the grant tables with their open transactions. The
keys with an index are safe because an insert asks the index. A key without one
is safe when one open transaction at a time has passed its check: from the check
to the commit nobody else can insert the key, so it stays clear
(`Kept.ready`). There is one lemma for what a statement does to the tables: it
writes rows that give up their keys (`Kept.write`), it only reads (`Kept.pass`),
it adds a row (`Kept.add`), or it ends the transaction (`Kept.finish`). -/
namespace Meho.Policy
open Meho.Lib

/-! ## Keys -/

theorem givesUp_replace (now : Time) : GivesUp activeKey (·.replace now) := by
  intro g k h
  simp [activeKey, StandingGrant.isActive, StandingGrant.replace] at h

theorem givesUp_revoke (now : Time) (bySub : String) (reason : Option String) :
    GivesUp activeKey (·.revoke now bySub reason) := by
  intro g k h
  simp [activeKey, StandingGrant.isActive, StandingGrant.revoke] at h

variable {g : StandingGrant} {k : GrantModel × GrantKey}

theorem activeKey_eq_some (h : activeKey g = some k) :
    g.isActive = true ∧ k = (g.model, g.key) := by
  unfold activeKey at h
  split at h
  · rename_i hactive
    cases h
    exact ⟨hactive, rfl⟩
  · cases h

@[simp] theorem activeKey_newGrant (tenantId : Nat) (bySub : String) (p : ServiceGrantCreate)
    (model : GrantModel) :
    activeKey (newGrant tenantId bySub p model) = some (model, p.key tenantId) := rfl

@[simp] theorem isSelector_key (p : ServiceGrantCreate) (tenantId : Nat) :
    (p.key tenantId).isSelector = p.isSelector := rfl

/-- A selector grant has no target. -/
theorem ServiceGrantCreate.targetId_of_isSelector {p : ServiceGrantCreate}
    (h : p.isSelector = true) : p.targetId = none := by
  rcases p.exclusive with hnone | ⟨hproduct, hpattern⟩
  · exact hnone
  · simp [isSelector, hproduct, hpattern] at h

theorem sameSelector_of_activeKey {tenantId : Nat} {p : ServiceGrantCreate} {model : GrantModel}
    (hp : p.isSelector = true) (h : activeKey g = some (model, p.key tenantId)) :
    sameSelector tenantId p model g = true := by
  obtain ⟨hactive, hk⟩ := activeKey_eq_some h
  simp only [Prod.mk.injEq] at hk
  obtain ⟨rfl, hkey⟩ := hk
  simp [sameSelector, ← hkey, ServiceGrantCreate.key,
    ServiceGrantCreate.targetId_of_isSelector hp, hactive]

theorem uqKey_of_activeKey {g' : StandingGrant} (hk : k.2.isSelector = false)
    (hg : activeKey g = some k) (hg' : activeKey g' = some k) :
    (uqKey g).isSome = true ∧ uqKey g' = uqKey g := by
  obtain ⟨hactive, rfl⟩ := activeKey_eq_some hg
  obtain ⟨hactive', hkk⟩ := activeKey_eq_some hg'
  simp only [Prod.mk.injEq] at hkk
  obtain ⟨hmodel, hkey⟩ := hkk
  simp only [GrantKey.isSelector, Bool.or_eq_false_iff, Option.isSome_eq_false_iff] at hk
  constructor
  · simp [uqKey, hactive, hk.1, hk.2]
  · simp only [uqKey, hactive, hactive', hmodel, hkey]

theorem clear_of_uqAnswer {tx : Nat} {slots : Grants} (hk : activeKey g = some k)
    (hselector : k.2.isSelector = false) (h : uqAnswer tx g slots = .free) :
    Clear activeKey tx k slots := by
  obtain ⟨hsome, -⟩ := uqKey_of_activeKey hselector hk hk
  obtain ⟨uq, huq⟩ := Option.isSome_iff_exists.mp hsome
  unfold uqAnswer at h
  rw [huq] at h
  refine Clear.of_key ?_ (Clear.of_free h)
  intro g' hg'
  rw [(uqKey_of_activeKey hselector hk hg').2, huq]

/-! ## The invariant -/

/-- The transaction is open and has passed the check of `k`. -/
def Proc.Holds (pr : Proc) (k : GrantModel × GrantKey) : Prop := pr.outcome = none ∧ k ∈ pr.passed

/-- Transaction `i` does. -/
def HoldsAt (procs : List Proc) (i : Nat) (k : GrantModel × GrantKey) : Prop :=
  ∃ pr, procs[i]? = some pr ∧ pr.Holds k

/-- The transaction is open and adds a selector grant of `k` next. -/
def Proc.AddsNext (pr : Proc) (k : GrantModel × GrantKey) : Prop :=
  pr.outcome = none ∧ ∃ model p rest, pr.todo = .add model p :: rest ∧ p.isSelector = true ∧
    k = (model, p.key pr.tenantId)

/-- A statement a call starts with. The others of an insert follow its first. -/
def Task.isPlanned : Task → Bool
  | .reject _ _ | .add _ _ => false
  | _ => true

/-- A row is checked and added right after its first statement, and only a selector is checked. -/
structure Proc.Ordered (pr : Proc) : Prop where
  planned : ∀ t ∈ pr.todo.tail, t.isPlanned = true
  selector : ∀ model p rest, pr.todo = .reject model p :: rest → p.isSelector = true

/-- What is planned adds nothing next. -/
theorem Proc.not_addsNext {pr : Proc} (h : ∀ t ∈ pr.todo, t.isPlanned = true)
    (k : GrantModel × GrantKey) : ¬ pr.AddsNext k := by
  rintro ⟨-, model, p, rest, htodo, -⟩
  have hadd := h (.add model p) (by rw [htodo]; exact List.mem_cons_self)
  cases hadd

theorem Proc.ordered_of_planned {pr : Proc} (h : ∀ t ∈ pr.todo, t.isPlanned = true) :
    pr.Ordered where
  planned t ht := h t (List.mem_of_mem_tail ht)
  selector model p rest htodo := by
    have hreject := h (.reject model p) (by rw [htodo]; exact List.mem_cons_self)
    cases hreject

/-- What every run of the grant writers keeps. -/
structure Kept (w : GrantWorld) : Prop where
  safe : Safe activeKey w.slots
  shrinking : Shrinking activeKey w.slots
  /-- An open insert of a selector grant has passed its check. -/
  fresh : ∀ u g, Slot.fresh u g ∈ w.slots → ∀ k, activeKey g = some k → k.2.isSelector = true →
    HoldsAt w.procs u k
  /-- One open transaction at a time has passed the check of a key. -/
  single : ∀ i j k, HoldsAt w.procs i k → HoldsAt w.procs j k → i = j
  /-- A selector grant that is added next has passed its check, and its key is clear. -/
  ready : ∀ (i : Nat) (pr : Proc) (k : GrantModel × GrantKey), w.procs[i]? = some pr →
    pr.AddsNext k → pr.Holds k ∧ Clear activeKey i k w.slots
  ordered : ∀ (i : Nat) (pr : Proc), w.procs[i]? = some pr → pr.outcome = none → pr.Ordered

theorem Kept.start : Kept grantMachine.begin_.state where
  safe := Safe.nil activeKey
  shrinking := Shrinking.nil activeKey
  fresh u g h := by cases h
  single i j k h := by
    obtain ⟨pr, hpr, -⟩ := h
    cases hpr
  ready i pr k h := by cases h
  ordered i pr h := by cases h

section Steps
variable {w : GrantWorld} {pid : Nat} {pr pr' : Proc}

variable {k : GrantModel × GrantKey}

theorem holdsAt_set (hpr : w.procs[pid]? = some pr) {i : Nat} :
    HoldsAt (w.procs.set pid pr') i k ↔
      (i = pid ∧ pr'.Holds k) ∨ (i ≠ pid ∧ HoldsAt w.procs i k) := by
  constructor
  · rintro ⟨q, hq, hholds⟩
    rcases getElem?_set_cases hq with ⟨rfl, rfl⟩ | ⟨hne, hold⟩
    · exact .inl ⟨rfl, hholds⟩
    · exact .inr ⟨hne, q, hold, hholds⟩
  · rintro (⟨rfl, hholds⟩ | ⟨hne, q, hq, hholds⟩)
    · exact ⟨pr', by simp [List.getElem?_set_self', hpr], hholds⟩
    · exact ⟨q, by rw [List.getElem?_set_ne (Ne.symm hne)]; exact hq, hholds⟩

theorem holdsAt_set_same (hpr : w.procs[pid]? = some pr) (hout : pr'.outcome = pr.outcome)
    (hpassed : pr'.passed = pr.passed) {i : Nat} :
    HoldsAt (w.procs.set pid pr') i k ↔ HoldsAt w.procs i k := by
  have hsame : pr'.Holds k ↔ pr.Holds k := by
    unfold Proc.Holds
    rw [hout, hpassed]
  rw [holdsAt_set hpr, hsame]
  constructor
  · rintro (⟨rfl, hholds⟩ | ⟨-, hholds⟩)
    · exact ⟨pr, hpr, hholds⟩
    · exact hholds
  · rintro ⟨q, hq, hholds⟩
    by_cases hi : i = pid
    · subst hi
      rw [hpr] at hq
      cases hq
      exact .inl ⟨rfl, hholds⟩
    · exact .inr ⟨hi, q, hq, hholds⟩

/-- A new call: it has passed nothing yet. -/
theorem Kept.call (h : Kept w) (hpassed : pr.passed = [])
    (hplanned : ∀ t ∈ pr.todo, t.isPlanned = true) : Kept (w.start pr) where
  safe := h.safe
  shrinking := h.shrinking
  fresh u g hmem k hk hselector := by
    obtain ⟨q, hq, hholds⟩ := h.fresh u g hmem k hk hselector
    refine ⟨q, ?_, hholds⟩
    unfold GrantWorld.start
    rw [List.getElem?_append_left (List.getElem?_eq_some_iff.mp hq).1]
    exact hq
  single i j k hi hj := by
    have hback : ∀ x, HoldsAt (w.start pr).procs x k → HoldsAt w.procs x k := by
      rintro x ⟨q, hq, hholds⟩
      rcases getElem?_snoc hq with hold | ⟨-, rfl⟩
      · exact ⟨q, hold, hholds⟩
      · simp [Proc.Holds, hpassed] at hholds
    exact h.single i j k (hback i hi) (hback j hj)
  ready i q k hi hq := by
    rcases getElem?_snoc hi with hold | ⟨-, rfl⟩
    · exact h.ready i q k hold hq
    · exact absurd hq (Proc.not_addsNext hplanned k)
  ordered i q hi hopen := by
    rcases getElem?_snoc hi with hold | ⟨-, rfl⟩
    · exact h.ordered i q hold hopen
    · exact Proc.ordered_of_planned hplanned

section
variable (h : Kept w) (hpr : w.procs[pid]? = some pr)
include h hpr

theorem Kept.write {slots' : Grants} {f : StandingGrant → StandingGrant} (hf : GivesUp activeKey f)
    {hits : Nat → StandingGrant → Bool} {matched : Bool}
    (hupdate : update pid hits f w.slots = some (slots', matched)) (hout : pr'.outcome = pr.outcome)
    (hpassed : pr'.passed = pr.passed) (hnext : ∀ k, ¬ pr'.AddsNext k) (hordered : pr'.Ordered) :
    Kept { slots := slots', procs := w.procs.set pid pr' } where
  safe := h.safe.update hf hupdate
  shrinking := h.shrinking.update hf hupdate
  fresh u g hmem k hk hselector := by
    obtain ⟨old, hold, hkold⟩ := fresh_of_update hf hupdate hmem hk
    exact (holdsAt_set_same hpr hout hpassed).mpr (h.fresh u old hold k hkold hselector)
  single i j k hi hj := by
    rw [holdsAt_set_same hpr hout hpassed] at hi hj
    exact h.single i j k hi hj
  ready i q k hi hq := by
    rcases getElem?_set_cases hi with ⟨-, rfl⟩ | ⟨-, hold⟩
    · exact absurd hq (hnext k)
    · obtain ⟨hholds, hclear⟩ := h.ready i q k hold hq
      exact ⟨hholds, hclear.update hf hupdate⟩
  ordered i q hi hopen := by
    rcases getElem?_set_cases hi with ⟨-, rfl⟩ | ⟨-, hold⟩
    · exact hordered
    · exact h.ordered i q hold hopen

theorem Kept.finish {slots' : Grants} (hend : Ended pid w.slots slots')
    (hsafe : Safe activeKey slots')
    (hclear : ∀ i k, i ≠ pid → Clear activeKey i k w.slots → Clear activeKey i k slots')
    (hclosed : pr'.outcome ≠ none) : Kept { slots := slots', procs := w.procs.set pid pr' } where
  safe := hsafe
  shrinking := h.shrinking.ended hend
  fresh u g hmem k hk hselector := by
    obtain ⟨hold, hu⟩ := hend.fresh hmem
    exact (holdsAt_set hpr).mpr (.inr ⟨hu, h.fresh u g hold k hk hselector⟩)
  single i j k hi hj := by
    have hback : ∀ x, HoldsAt (w.procs.set pid pr') x k → HoldsAt w.procs x k := by
      intro x hx
      rcases (holdsAt_set hpr).mp hx with ⟨-, hholds⟩ | ⟨-, hold⟩
      · exact absurd hholds.1 hclosed
      · exact hold
    exact h.single i j k (hback i hi) (hback j hj)
  ready i q k hi hq := by
    rcases getElem?_set_cases hi with ⟨-, rfl⟩ | ⟨hne, hold⟩
    · exact absurd hq.1 hclosed
    · obtain ⟨hholds, hc⟩ := h.ready i q k hold hq
      exact ⟨hholds, hclear i k hne hc⟩
  ordered i q hi hopen := by
    rcases getElem?_set_cases hi with ⟨-, rfl⟩ | ⟨-, hold⟩
    · exact absurd hopen hclosed
    · exact h.ordered i q hold hopen

theorem Kept.commit (hclosed : pr'.outcome ≠ none) :
    Kept { slots := w.slots.map (·.commit pid), procs := w.procs.set pid pr' } :=
  h.finish hpr (Ended.commit pid w.slots) (h.safe.commit pid) (fun _ _ _ hc => hc.commit pid)
    hclosed

theorem Kept.abort (hclosed : pr'.outcome ≠ none) :
    Kept { slots := w.slots.map (·.abort pid), procs := w.procs.set pid pr' } :=
  h.finish hpr (Ended.abort pid w.slots) (h.safe.abort pid) (fun _ _ hne hc => hc.abort hne)
    hclosed

/-- A duplicate check is passed, and no other open transaction has passed it. -/
theorem Kept.pass (hopen : pr.outcome = none)
    (hunseen : ∀ s ∈ w.slots, (s.seen pid).bind activeKey ≠ some k)
    (hselector : k.2.isSelector = true) (halone : ∀ i, i ≠ pid → ¬ HoldsAt w.procs i k)
    (hout : pr'.outcome = none) (hpassed : pr'.passed = k :: pr.passed)
    (hnext : ∀ k', pr'.AddsNext k' → k' = k) (hordered : pr'.Ordered) :
    Kept { slots := w.slots, procs := w.procs.set pid pr' } where
  safe := h.safe
  shrinking := h.shrinking
  fresh u g hmem k' hk' hselector' := by
    obtain ⟨q, hq, hholds⟩ := h.fresh u g hmem k' hk' hselector'
    refine (holdsAt_set hpr).mpr ?_
    by_cases hu : u = pid
    · subst hu
      rw [hpr] at hq
      cases hq
      refine .inl ⟨rfl, hout, ?_⟩
      rw [hpassed]
      exact List.mem_cons_of_mem k hholds.2
    · exact .inr ⟨hu, q, hq, hholds⟩
  single i j k' hi hj := by
    by_cases hk : k' = k
    · subst hk
      have hpid : ∀ x, HoldsAt (w.procs.set pid pr') x k' → x = pid := by
        intro x hx
        rcases (holdsAt_set hpr).mp hx with ⟨hx, -⟩ | ⟨hne, hold⟩
        · exact hx
        · exact absurd hold (halone x hne)
      rw [hpid i hi, hpid j hj]
    · have hback : ∀ x, HoldsAt (w.procs.set pid pr') x k' → HoldsAt w.procs x k' := by
        intro x hx
        rcases (holdsAt_set hpr).mp hx with ⟨rfl, hholds⟩ | ⟨-, hold⟩
        · have hmem := hholds.2
          rw [hpassed] at hmem
          rcases List.mem_cons.mp hmem with heq | hbefore
          · exact absurd heq hk
          · exact ⟨pr, hpr, hopen, hbefore⟩
        · exact hold
      exact h.single i j k' (hback i hi) (hback j hj)
  ready i q k' hi hq := by
    rcases getElem?_set_cases hi with ⟨rfl, rfl⟩ | ⟨-, hold⟩
    · obtain rfl := hnext k' hq
      refine ⟨⟨hout, by rw [hpassed]; exact List.mem_cons_self⟩, ?_⟩
      apply Clear.of_unseen h.shrinking hunseen
      -- an open insert of the key would have passed the check too
      intro u g hmem hu hg
      exact halone u hu (h.fresh u g hmem k' hg hselector)
    · exact h.ready i q k' hold hq
  ordered i q hi hopen' := by
    rcases getElem?_set_cases hi with ⟨-, rfl⟩ | ⟨-, hold⟩
    · exact hordered
    · exact h.ordered i q hold hopen'

/-- A row is added: its key is clear, and a selector grant has passed its check. -/
theorem Kept.add {g : StandingGrant} (hg : activeKey g = some k)
    (hclear : Clear activeKey pid k w.slots) (hholds : k.2.isSelector = true → pr.Holds k)
    (hout : pr'.outcome = pr.outcome) (hpassed : pr'.passed = pr.passed)
    (hnext : ∀ k', ¬ pr'.AddsNext k') (hordered : pr'.Ordered) :
    Kept { slots := w.slots ++ [.fresh pid g], procs := w.procs.set pid pr' } where
  safe := by
    apply h.safe.insert
    intro k' hk'
    rw [hg] at hk'
    cases hk'
    exact hclear
  shrinking := h.shrinking.insert g
  fresh u g' hmem k' hk' hselector := by
    refine (holdsAt_set_same hpr hout hpassed).mpr ?_
    rcases List.mem_append.mp hmem with hold | hlast
    · exact h.fresh u g' hold k' hk' hselector
    · rw [List.mem_singleton] at hlast
      cases hlast
      rw [hg] at hk'
      cases hk'
      exact ⟨pr, hpr, hholds hselector⟩
  single i j k' hi hj := by
    rw [holdsAt_set_same hpr hout hpassed] at hi hj
    exact h.single i j k' hi hj
  ready i q k' hi hq := by
    rcases getElem?_set_cases hi with ⟨-, rfl⟩ | ⟨hne, hold⟩
    · exact absurd hq (hnext k')
    · obtain ⟨hqholds, hc⟩ := h.ready i q k' hold hq
      refine ⟨hqholds, hc.insert ?_⟩
      rw [hg]
      intro heq
      cases heq
      -- both would have passed the check of the key
      obtain ⟨-, model, p, rest, -, hp, rfl⟩ := hq
      exact hne (h.single i pid _ ⟨q, hold, hqholds⟩ ⟨pr, hpr, hholds hp⟩)
  ordered i q hi hopen := by
    rcases getElem?_set_cases hi with ⟨-, rfl⟩ | ⟨-, hold⟩
    · exact hordered
    · exact h.ordered i q hold hopen

end

end Steps

/-! ## One statement -/

theorem alone_of_inFlight {w : GrantWorld} {pid : Nat} (h : w.inFlight pid k = false) :
    ∀ i, i ≠ pid → ¬ HoldsAt w.procs i k := by
  rintro i hne ⟨pr, hpr, hopen, hmem⟩
  unfold GrantWorld.inFlight at h
  rw [List.any_eq_false] at h
  refine h true ?_ rfl
  rw [List.mem_iff_getElem?]
  refine ⟨i, ?_⟩
  rw [List.getElem?_mapIdx, hpr]
  simp [hne, hopen, hmem]

/-- What a statement does to the tables and to its transaction. -/
inductive Proc.Move (pr : Proc) (tx : Nat) (now : Time) (slots : Grants) : Grants → Proc → Prop where
  | commit : Move pr tx now slots (slots.map (·.commit tx))
      { pr with outcome := some (.committed pr.revoked) }
  | raise (reason : String) : Move pr tx now slots (slots.map (·.abort tx))
      { pr with outcome := some (.refused reason) }
  | mark {model : GrantModel} {p : ServiceGrantCreate} {rest : List Task} {slots' : Grants}
      {matched : Bool} (htodo : pr.todo = .mark model p :: rest)
      (hupdate : update tx (fun _ => endedGrant pr.tenantId p model now) (·.replace now) slots =
        some (slots', matched)) :
      Move pr tx now slots slots'
        { pr with todo := (if p.isSelector then .reject model p else .add model p) :: rest }
  | pass {model : GrantModel} {p : ServiceGrantCreate} {rest : List Task}
      (htodo : pr.todo = .reject model p :: rest)
      (hnone : ¬(slots.any fun s => (s.seen tx).any (sameSelector pr.tenantId p model)) = true) :
      Move pr tx now slots slots { pr with
        todo := .add model p :: rest
        passed := (model, p.key pr.tenantId) :: pr.passed }
  | add {model : GrantModel} {p : ServiceGrantCreate} {rest : List Task}
      (htodo : pr.todo = .add model p :: rest)
      (hfree : uqAnswer tx (newGrant pr.tenantId pr.bySub p model) slots = .free) :
      Move pr tx now slots (slots ++ [.fresh tx (newGrant pr.tenantId pr.bySub p model)])
        { pr with todo := rest }
  | revoke {task : Task} {rest todo : List Task} {hits : Nat → StandingGrant → Bool}
      {revokedAt : Time} {reason : Option String} {slots' : Grants} {matched revoked : Bool}
      (htodo : pr.todo = task :: rest) (hleft : todo = rest ∨ todo = [])
      (hupdate : update tx hits (·.revoke revokedAt pr.bySub reason) slots =
        some (slots', matched)) :
      Move pr tx now slots slots' { pr with todo := todo, revoked := revoked }

variable {now : Time}

theorem Proc.exec_move {pr pr' : Proc} {tx : Nat} {slots slots' : Grants}
    (h : pr.exec tx now slots = some (slots', pr')) : pr.Move tx now slots slots' pr' := by
  unfold Proc.exec at h
  split at h
  · cases h
    exact .commit
  · rename_i model p rest htodo
    obtain ⟨⟨slots₁, matched⟩, hupdate, heq⟩ := Option.map_eq_some_iff.mp h
    cases heq
    exact .mark htodo hupdate
  · rename_i model p rest htodo
    split at h
    · cases h
      exact .raise _
    · rename_i hnone
      cases h
      exact .pass htodo hnone
  · rename_i model p rest htodo
    simp only at h
    split at h
    · cases h
    · cases h
      exact .raise _
    · rename_i hfree
      cases h
      exact .add htodo hfree
  -- the renewal's revoke must match its row; the plain one may match none
  · rename_i oldId revokedAt rest htodo
    obtain ⟨⟨slots₁, matched⟩, hupdate, heq⟩ := Option.map_eq_some_iff.mp h
    split at heq
    · cases heq
      exact .revoke htodo (.inl rfl) hupdate
    · cases heq
      exact .raise _
  · rename_i model grantId reason revokedAt rest htodo
    obtain ⟨⟨slots₁, matched⟩, hupdate, heq⟩ := Option.map_eq_some_iff.mp h
    split at heq
    · cases heq
      exact .revoke htodo (.inr rfl) hupdate
    · cases heq
      exact .revoke htodo (.inl rfl) hupdate

/-- The next statement keeps the invariant when its check, if it is one, runs alone. -/
theorem Kept.exec {w : GrantWorld} {pid : Nat} {pr pr' : Proc} {slots' : Grants} (h : Kept w)
    (hpr : w.procs[pid]? = some pr) (hopen : pr.outcome = none)
    (halone : ∀ model p rest, pr.todo = .reject model p :: rest → ∀ i, i ≠ pid →
      ¬ HoldsAt w.procs i (model, p.key pr.tenantId))
    (hexec : pr.exec pid now w.slots = some (slots', pr')) :
    Kept { slots := slots', procs := w.procs.set pid pr' } := by
  have hordered := h.ordered pid pr hpr hopen
  have hplanned : ∀ {task : Task} {rest : List Task}, pr.todo = task :: rest →
      ∀ t ∈ rest, t.isPlanned = true := by
    intro task rest htodo
    have hrest := hordered.planned
    rw [htodo] at hrest
    exact hrest
  cases Proc.exec_move hexec with
  | commit => exact h.commit hpr (by simp)
  | raise reason => exact h.abort hpr (by simp)
  -- replacing a grant frees its key, which the same call then fills
  | @mark model p rest _ _ htodo hupdate =>
    refine h.write hpr (givesUp_replace now) hupdate rfl rfl ?_ ⟨hplanned htodo, ?_⟩
    · rintro k ⟨-, model', p', rest', hnext, hp', -⟩
      simp only [List.cons.injEq] at hnext
      split at hnext
      · cases hnext.1
      · rename_i hnot
        cases hnext.1
        exact hnot hp'
    · intro model' p' rest' hnext
      simp only [List.cons.injEq] at hnext
      split at hnext
      · rename_i hp
        cases hnext.1
        exact hp
      · cases hnext.1
  -- no live grant was seen, and no other call is about to add one for the key
  | @pass model p rest htodo hnone =>
    have hp := hordered.selector model p rest htodo
    refine h.pass (k := (model, p.key pr.tenantId)) hpr hopen ?_ hp
      (halone model p rest htodo) hopen rfl ?_ ⟨hplanned htodo, ?_⟩
    · intro s hs hk
      obtain ⟨g, hg, hgk⟩ := Option.bind_eq_some_iff.mp hk
      refine hnone (List.any_eq_true.mpr ⟨s, hs, ?_⟩)
      rw [hg]
      exact sameSelector_of_activeKey hp hgk
    · rintro k' ⟨-, model', p', rest', hnext, -, rfl⟩
      cases hnext
      rfl
    · intro model' p' rest' hnext
      cases hnext
  | @add model p rest htodo hfree =>
    have hready : p.isSelector = true → pr.Holds (model, p.key pr.tenantId) ∧
        Clear activeKey pid (model, p.key pr.tenantId) w.slots := by
      intro hp
      exact h.ready pid pr _ hpr ⟨hopen, model, p, rest, htodo, hp, rfl⟩
    refine h.add hpr (activeKey_newGrant pr.tenantId pr.bySub p model) ?_
      (fun hp => (hready hp).1) rfl rfl (Proc.not_addsNext (hplanned htodo))
      (Proc.ordered_of_planned (hplanned htodo))
    -- a selector rests on the lock it holds, any other grant on the unique index
    by_cases hp : p.isSelector = true
    · exact (hready hp).2
    · exact clear_of_uqAnswer (activeKey_newGrant pr.tenantId pr.bySub p model)
        (by simpa using hp) hfree
  | @revoke task rest todo _ _ _ _ _ _ htodo hleft hupdate =>
    have htodo' : ∀ t ∈ todo, t.isPlanned = true := by
      rcases hleft with rfl | rfl
      · exact hplanned htodo
      · simp
    exact h.write hpr (givesUp_revoke _ _ _) hupdate rfl rfl (Proc.not_addsNext htodo')
      (Proc.ordered_of_planned htodo')

/-! ## Runs -/

section
variable {review : Review} {expiresAt : Option Time} {reason : Option String} {tasks : List Task}

theorem renewalTasks_planned {rows : List (Nat × StandingGrant)}
    (h : renewalTasks review expiresAt reason now rows = .ok tasks) :
    ∀ t ∈ tasks, t.isPlanned = true := by
  induction rows generalizing tasks with
  | nil =>
    cases h
    simp
  | cons r rest ih =>
    unfold renewalTasks at h
    split at h
    · cases h
    · split at h
      · cases h
      · cases h
      · split at h
        · cases h
        · rename_i htasks
          cases h
          intro t ht
          rcases List.mem_cons.mp ht with rfl | ht
          · rfl
          · rcases List.mem_cons.mp ht with rfl | ht
            · rfl
            · exact ih htasks t ht

theorem renewal_ok {w : GrantWorld} {tenantId : Nat} {principalSub : String}
    {sandboxModeActive fromConsole : Bool}
    (h : w.renewal tenantId principalSub expiresAt reason sandboxModeActive fromConsole review now = .ok tasks) :
    renewalTasks review expiresAt reason now
      (w.rows.filter fun r => renewable tenantId principalSub now r.2) = .ok tasks := by
  unfold GrantWorld.renewal at h
  split at h
  · cases h
  · split at h
    · cases h
    · simp only at h
      split at h
      · cases h
      · exact h

end

/-- A call, refused or not. -/
theorem Kept.planned {w : GrantWorld} (h : Kept w) {plan : Except String (List Task)}
    (hplan : ∀ tasks, plan = .ok tasks → ∀ t ∈ tasks, t.isPlanned = true) (tenantId : Nat)
    (bySub : String) : Kept (w.start (Policy.planned tenantId bySub plan)) := by
  cases plan with
  | error e => exact h.call rfl (by simp [Policy.planned, Proc.refused])
  | ok tasks => exact h.call rfl (hplan tasks rfl)

theorem Kept.step {w : GrantWorld} (h : Kept w) {a : GrantAct} {events : List Empty}
    (ha : ChecksApart ⟨w, events⟩ a) : Kept (w.step a) := by
  cases a with
  | create tenantId createdBySub p review =>
    refine h.planned ?_ tenantId createdBySub
    intro tasks htasks t ht
    obtain ⟨model, -, rfl⟩ := except_map_eq_ok htasks
    rw [List.mem_singleton] at ht
    subst ht
    rfl
  | renew tenantId principalSub renewedBySub expiresAt reason sandbox console review now =>
    exact h.planned (fun _ htasks => renewalTasks_planned (renewal_ok htasks)) tenantId renewedBySub
  | revoke tenantId grantId revokedBySub reason sandbox now =>
    refine h.call rfl ?_
    intro t ht
    obtain ⟨model, -, rfl⟩ := List.mem_map.mp ht
    rfl
  | exec pid now =>
    unfold GrantWorld.step
    simp only
    split
    · exact h
    · rename_i pr hpr
      split
      · exact h
      · rename_i hopen
        have hopen : pr.outcome = none := by simpa using hopen
        split
        · exact h
        · rename_i slots' pr' hexec
          refine h.exec hpr hopen ?_ hexec
          intro model p rest htodo
          -- the run's assumption: no other call is between its check and its insert
          apply alone_of_inFlight
          simpa [ChecksApart, GrantWorld.checking, hpr, hopen, htodo] using ha
  | lose pid =>
    unfold GrantWorld.step
    simp only
    split
    · exact h
    · rename_i pr hpr
      split
      · exact h
      · exact h.abort hpr (by simp)

/-! ## The table of a key -/

/-- The reviews answer the table `home` gives the key, so a key stays in one table. -/
def GrantAct.Homed (home : GrantKey → GrantModel) : GrantAct → Prop
  | .create tenantId _ p review => ∀ model, review p = .ok model → model = home (p.key tenantId)
  | _ => True

/-- The grant a statement is about goes to the table of its key. -/
def Task.Homed (home : GrantKey → GrantModel) (tenantId : Nat) : Task → Prop
  | .mark model p | .reject model p | .add model p => model = home (p.key tenantId)
  | _ => True

/-- Every version of every row, and every row to come, is in the table of its key. -/
structure AtHome (home : GrantKey → GrantModel) (w : GrantWorld) : Prop where
  rows : Throughout (fun g => g.model = home g.key) w.slots
  tasks : ∀ pr ∈ w.procs, ∀ t ∈ pr.todo, t.Homed home pr.tenantId

section Home
variable {home : GrantKey → GrantModel} {w : GrantWorld}

theorem AtHome.call (h : AtHome home w) {pr : Proc}
    (hpr : ∀ t ∈ pr.todo, t.Homed home pr.tenantId) : AtHome home (w.start pr) where
  rows := h.rows
  tasks q hq := by
    rcases List.mem_append.mp hq with hold | hlast
    · exact h.tasks q hold
    · rw [List.mem_singleton] at hlast
      subst hlast
      exact hpr

section
variable (h : AtHome home w) {pid : Nat} {pr' : Proc} {slots' : Grants}
include h

/-- A transaction moves: the rows it leaves and the statements it still has are at home. -/
theorem AtHome.move (hrows : Throughout (fun g => g.model = home g.key) slots')
    (hpr' : ∀ t ∈ pr'.todo, t.Homed home pr'.tenantId) :
    AtHome home { slots := slots', procs := w.procs.set pid pr' } where
  rows := hrows
  tasks q hq := by
    rcases List.mem_or_eq_of_mem_set hq with hold | rfl
    · exact h.tasks q hold
    · exact hpr'

theorem AtHome.exec {pr : Proc} {now : Time} (hpr : pr ∈ w.procs)
    (hexec : pr.exec pid now w.slots = some (slots', pr')) :
    AtHome home { slots := slots', procs := w.procs.set pid pr' } := by
  have htasks := h.tasks pr hpr
  have hrevoke : ∀ (now : Time) (bySub : String) (reason : Option String) (g : StandingGrant),
      g.model = home g.key → (g.revoke now bySub reason).model =
        home (g.revoke now bySub reason).key := fun _ _ _ _ hg => hg
  have hreplace : ∀ (now : Time) (g : StandingGrant), g.model = home g.key →
      (g.replace now).model = home (g.replace now).key := fun _ _ hg => hg
  cases Proc.exec_move hexec with
  | commit => exact h.move (h.rows.commit pid) htasks
  | raise reason => exact h.move (h.rows.abort pid) htasks
  | mark htodo hupdate =>
    refine h.move (h.rows.update (hreplace now) hupdate) ?_
    rw [htodo] at htasks
    have hmark := htasks _ List.mem_cons_self
    intro t ht
    rcases List.mem_cons.mp ht with rfl | ht
    · split <;> exact hmark
    · exact htasks t (List.mem_cons_of_mem _ ht)
  | pass htodo hnone =>
    refine h.move h.rows ?_
    rw [htodo] at htasks
    have hreject := htasks _ List.mem_cons_self
    intro t ht
    rcases List.mem_cons.mp ht with rfl | ht
    · exact hreject
    · exact htasks t (List.mem_cons_of_mem _ ht)
  | @add model p rest htodo hfree =>
    rw [htodo] at htasks
    have hadd : model = home (p.key pr.tenantId) := htasks _ List.mem_cons_self
    exact h.move (h.rows.insert hadd) fun t ht => htasks t (List.mem_cons_of_mem _ ht)
  | revoke htodo hleft hupdate =>
    refine h.move (h.rows.update (hrevoke _ _ _) hupdate) ?_
    rw [htodo] at htasks
    rcases hleft with rfl | rfl
    · exact fun t ht => htasks t (List.mem_cons_of_mem _ ht)
    · simp

end

/-- What a renewal plans is at home when the rows it renews are. -/
theorem renewalTasks_homed {tenantId : Nat} {review : Review} {expiresAt : Option Time}
    {reason : Option String} {now : Time} {rows : List (Nat × StandingGrant)} {tasks : List Task}
    (hrows : ∀ r ∈ rows, r.2.key.tenantId = tenantId ∧ home r.2.key = .sandboxDeleteGrant)
    (h : renewalTasks review expiresAt reason now rows = .ok tasks) :
    ∀ t ∈ tasks, t.Homed home tenantId := by
  induction rows generalizing tasks with
  | nil =>
    cases h
    simp
  | cons r rest ih =>
    unfold renewalTasks at h
    split at h
    · cases h
    · rename_i p hp
      split at h
      · cases h
      · cases h
      · split at h
        · cases h
        · rename_i htasks
          cases h
          intro t ht
          rcases List.mem_cons.mp ht with rfl | ht
          · trivial
          · rcases List.mem_cons.mp ht with rfl | ht
            · -- the payload has the key of the row
              obtain ⟨htenant, hhome⟩ := hrows r List.mem_cons_self
              have hkey : p.key tenantId = r.2.key := by
                unfold renewalPayload at hp
                split at hp
                · cases hp
                  rw [← htenant]
                  rfl
                · cases hp
              simp only [Task.Homed, hkey, hhome]
            · exact ih (fun r' hr' => hrows r' (List.mem_cons_of_mem r hr')) htasks t ht

theorem AtHome.step (h : AtHome home w) {a : GrantAct} (ha : a.Homed home) :
    AtHome home (w.step a) := by
  cases a with
  | create tenantId createdBySub p review =>
    refine h.call ?_
    cases hreview : review p with
    | error e => simp [planned, Proc.refused, Except.map]
    | ok model =>
      have hmodel := ha model hreview
      simp [planned, Proc.begin_, Except.map, Task.Homed, hmodel]
  | renew tenantId principalSub renewedBySub expiresAt reason sandbox console review now =>
    refine h.call ?_
    cases hrenewal : w.renewal tenantId principalSub expiresAt reason sandbox console review now with
    | error e => simp [planned, Proc.refused]
    | ok tasks =>
      simp only [planned, Proc.begin_]
      -- a renewal grants again what its tenant's rows already grant
      refine renewalTasks_homed ?_ (renewal_ok hrenewal)
      intro r hr
      obtain ⟨hrow, hrenewable⟩ := List.mem_filter.mp hr
      simp only [renewable, Bool.and_eq_true, decide_eq_true_eq] at hrenewable
      refine ⟨hrenewable.1.1.1.2, ?_⟩
      unfold GrantWorld.rows at hrow
      obtain ⟨o, ho, hid⟩ := List.mem_filterMap.mp hrow
      obtain ⟨i, s, hs, rfl⟩ := List.mem_mapIdx.mp ho
      obtain ⟨g, hg, rfl⟩ := Option.map_eq_some_iff.mp hid
      rw [← h.rows _ _ (List.getElem_mem _) g hg]
      exact hrenewable.1.1.1.1
  | revoke tenantId grantId revokedBySub reason sandbox now =>
    refine h.call ?_
    intro t ht
    obtain ⟨model, -, rfl⟩ := List.mem_map.mp ht
    trivial
  | exec pid now =>
    unfold GrantWorld.step
    simp only
    split
    · exact h
    · rename_i pr hpr
      split
      · exact h
      · split
        · exact h
        · rename_i slots' pr' hexec
          exact h.exec (List.mem_of_getElem? hpr) hexec
  | lose pid =>
    unfold GrantWorld.step
    simp only
    split
    · exact h
    · rename_i pr hpr
      split
      · exact h
      · exact h.move (h.rows.abort pid) (h.tasks pr (List.mem_of_getElem? hpr))

end Home

/-! ## One active grant -/

/-- A grant for every target of one product. -/
def productGrant : ServiceGrantCreate where
  principalSub := "svc"
  opId := "POST:/repos/{owner}/{repo}/issues"
  connectorId := "gh-rest-3"
  targetId := none
  targetProduct := some "gh"
  targetNamePattern := none
  reason := "paired"
  expiresAt := none
  exclusive := .inl rfl

/-- Somebody asks for it, and the review answers the ordinary table. -/
def createProductGrant : GrantAct :=
  .create 1 "op" productGrant fun _ => .ok .servicePrincipalGrant

/-- The key of the active grant that everybody sees in the slot, with its table. -/
def activeIn (s : Slot StandingGrant) : Option (GrantModel × GrantKey) :=
  s.committed.bind activeKey

/-- **One active grant for a key.** In every run in which no duplicate check of a selector runs
while another open transaction has passed the same one, each table has at most one active
grant for a key. When the reviews keep a key in one table, the two tables together have. -/
theorem one_active_grant {acts : List GrantAct}
    (h : grantMachine.Along ChecksApart grantMachine.begin_ acts) :
    UniqueIndex activeIn (grantMachine.after acts).state.slots ∧
      ∀ home : GrantKey → GrantModel, (∀ a ∈ acts, a.Homed home) →
        UniqueIndex (fun s => (activeIn s).map (·.2)) (grantMachine.after acts).state.slots := by
  have hkept : Kept (grantMachine.after acts).state :=
    grantMachine.along_induct (I := fun c => Kept c.state) (fun c a hc ha => hc.step ha)
      Kept.start h
  have hunique : UniqueIndex activeIn (grantMachine.after acts).state.slots := hkept.safe.committed
  refine ⟨hunique, ?_⟩
  intro home hacts
  have hhome : AtHome home (grantMachine.after acts).state :=
    grantMachine.run_induct_of_forall (I := fun c => AtHome home c.state)
      (fun c a hc ha => hc.step ha) ⟨Throughout.nil _, by simp [grantMachine, Machine.begin_]⟩ hacts
  -- the key gives the table
  have htable : ∀ s ∈ (grantMachine.after acts).state.slots, ∀ k,
      (activeIn s).map (·.2) = some k → activeIn s = some (home k, k) := by
    intro s hs k hk
    obtain ⟨⟨model, k'⟩, hactive, rfl⟩ := Option.map_eq_some_iff.mp hk
    obtain ⟨g, hg, hgk⟩ := Option.bind_eq_some_iff.mp hactive
    obtain ⟨-, heq⟩ := activeKey_eq_some hgk
    cases heq
    rw [hactive, hhome.rows _ s hs g hg]
  intro i j s s' k hi hj hk hk'
  exact hunique i j s s' (home k, k) hi hj (htable s (List.mem_of_getElem? hi) k hk)
    (htable s' (List.mem_of_getElem? hj) k hk')

/-- Two creates one after the other: the second is refused. -/
theorem one_active_grant_in_turn :
    let acts := [createProductGrant, .exec 0 0, .exec 0 0, .exec 0 0, .exec 0 0,
      createProductGrant, .exec 1 1, .exec 1 1]
    (grantMachine.after acts).state.slots.length = 1 ∧
      UniqueIndex activeIn (grantMachine.after acts).state.slots ∧
      UniqueIndex (fun s => (activeIn s).map (·.2)) (grantMachine.after acts).state.slots := by
  intro acts
  have h : grantMachine.Along ChecksApart grantMachine.begin_ acts := by decide
  have hhome : ∀ a ∈ acts, a.Homed fun _ => .servicePrincipalGrant := by
    simp [acts, createProductGrant, GrantAct.Homed]
  exact ⟨rfl, (one_active_grant h).1, (one_active_grant h).2 _ hhome⟩

/-- Two creates of one selector grant: both pass the duplicate check, then both insert. -/
theorem selector_race : ¬ ∀ acts, UniqueIndex activeIn (grantMachine.after acts).state.slots := by
  intro h
  have hrace := h [createProductGrant, createProductGrant, .exec 0 0, .exec 1 0, .exec 0 0,
    .exec 1 0, .exec 0 0, .exec 1 0, .exec 0 0, .exec 1 0] 0 1
    (.stable (newGrant 1 "op" productGrant .servicePrincipalGrant))
    (.stable (newGrant 1 "op" productGrant .servicePrincipalGrant))
    (.servicePrincipalGrant, productGrant.key 1) rfl rfl rfl rfl
  cases hrace

end Meho.Policy
