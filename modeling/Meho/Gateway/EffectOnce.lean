import Meho.Gateway.EffectIngest

/- A runner's effect records are ingested once, as one chain.

`IngestKept` is the invariant of the ingest. What is committed fits: a stored
head is where the committed audit rows of its runner end, and those rows are a
chain. An open transaction has verified a piece of a chain that starts at the
head it read; once it has stored its head it alone has a version of that row.
Whether the piece still fits is decided when it is committed: the committed
head is still the one that was read (`OnHeadRead`), or the head row was not
there, and then nothing of the runner was committed. -/
namespace Meho.Gateway
open Meho.Lib
open Meho.Runner

variable {C : Crypto} {H : AuditHashes}

/-! ## What is committed -/

/-- The tenant and the runner of a row, and of a transaction. -/
def EffectRow.owner (row : EffectRow) : Nat × String := (row.tenantId, row.record.runnerId)

def IngestProc.key (p : IngestProc) : Nat × String := (p.tenantId, p.runnerId)

/-- The records of a runner that have an audit row, in the order of their commits. -/
def effectLog (audit : List EffectRow) (tenantId : Nat) (runnerId : String) :
    List EffectAuditRecord :=
  (audit.filter fun row => row.owner = (tenantId, runnerId)).map (·.record)

/-- Somebody reading the table of heads finds the row. -/
def Shows (heads : List (Slot HeadRow)) (row : HeadRow) : Prop :=
  ∃ s ∈ heads, s.committed = some row

/-- The heads and the audit rows that are committed fit together. -/
structure LogFits (C : Crypto) (heads : List (Slot HeadRow)) (audit : List EffectRow) : Prop where
  chained : ∀ t r, (effectChain C).Chained genesisHead (effectLog audit t r)
  /-- A stored head is where the runner's records end. -/
  stored : ∀ row, Shows heads row →
    row.head = (effectChain C).after genesisHead (effectLog audit row.tenantId row.runnerId)
  /-- A runner without a head has no records. -/
  unstored : ∀ t r, (∀ row, Shows heads row → row.key ≠ (t, r)) → effectLog audit t r = []

/-! ## What is open -/

/-- The batch the transaction has verified, and where its chain starts. -/
def recordsOf (written : List EffectRow) : List EffectAuditRecord := written.map (·.record)

def base (read : Option (Nat × ChainHead String)) : ChainHead String :=
  (read.map (·.2)).getD genesisHead

/-- The rows a transaction has written are of its runner and continue the head it read; the head
it read is a row of the runner. -/
structure Verified (C : Crypto) (key : Nat × String) (heads : List (Slot HeadRow))
    (read : Option (Nat × ChainHead String)) (written : List EffectRow) : Prop where
  own : ∀ row ∈ written, row.owner = key
  chained : (effectChain C).Chained (base read) (recordsOf written)
  row : ∀ id head, read = some (id, head) → ∃ s row, heads[id]? = some s ∧
    s.committed = some row ∧ row.key = key

/-- The version of a head row that a transaction has stored. -/
def Stored (C : Crypto) (key : Nat × String) (pid : Nat) (read : Option (Nat × ChainHead String))
    (written : List EffectRow) (i : Nat) (s : Slot HeadRow) : Prop :=
  ∃ new : HeadRow, new.key = key ∧
    new.head = (effectChain C).after (base read) (recordsOf written) ∧
    match read with
    | none => s = .fresh pid new
    | some (id, _) => i = id ∧ ∃ row, s = .writing row pid new

/-- What is true of an open transaction. -/
def IngestProc.Sound (C : Crypto) (p : IngestProc) (heads : List (Slot HeadRow)) : Prop :=
  match p.stage with
  | .writing read head todo written =>
    Verified C p.key heads read written ∧ p.records = recordsOf written ++ todo ∧
      head = (effectChain C).after (base read) (recordsOf written)
  | .flushed read written => Verified C p.key heads read written ∧ p.records = recordsOf written
  | _ => True

/-- What every run of the ingest keeps. -/
structure IngestKept (C : Crypto) (w : IngestWorld) : Prop where
  safe : Safe headKey w.heads
  shrinking : Shrinking headKey w.heads
  fits : LogFits C w.heads w.audit
  sound : ∀ (pid : Nat) (p : IngestProc), w.procs[pid]? = some p → p.Sound C w.heads
  /-- An open version of a head row is what its transaction has stored. -/
  owners : ∀ (i : Nat) (s : Slot HeadRow) (u : Nat), w.heads[i]? = some s → s.owner = some u →
    ∃ p read written, w.procs[u]? = some p ∧ p.stage = .flushed read written ∧
      Stored C p.key u read written i s
  /-- A transaction with rows to commit has stored its head. -/
  owned : ∀ (pid : Nat) (p : IngestProc) (read : Option (Nat × ChainHead String))
    (written : List EffectRow), w.procs[pid]? = some p → p.stage = .flushed read written →
    written = [] ∨ ∃ (i : Nat) (s : Slot HeadRow), w.heads[i]? = some s ∧ s.owner = some pid

theorem IngestKept.start : IngestKept C (ingestMachine C H).begin_.state where
  safe := Safe.nil headKey
  shrinking := Shrinking.nil headKey
  fits := by
    refine ⟨fun _ _ => trivial, ?_, fun _ _ _ => rfl⟩
    rintro row ⟨s, hs, -⟩
    cases hs
  sound pid p h := by cases h
  owners i s u h := by cases h
  owned pid p read written h := by cases h

/-! ## Frames -/

section Frames
variable {w : IngestWorld} {pid : Nat} {p : IngestProc} {heads' : List (Slot HeadRow)}

theorem Verified.aside {key : Nat × String} {read : Option (Nat × ChainHead String)}
    {written : List EffectRow} (h : Verified C key w.heads read written)
    (haside : Aside HeadRow.key pid w.heads heads') : Verified C key heads' read written where
  own := h.own
  chained := h.chained
  row id head hread := by
    obtain ⟨s, row, hs, hrow, hkey⟩ := h.row id head hread
    obtain ⟨s', row', hs', hrow', hkey'⟩ := haside.keeps id s row hs hrow
    exact ⟨s', row', hs', hrow', hkey'.trans hkey⟩

theorem IngestProc.Sound.aside (h : p.Sound C w.heads)
    (haside : Aside HeadRow.key pid w.heads heads') : p.Sound C heads' := by
  unfold IngestProc.Sound at h ⊢
  split
  · rename_i hstage
    rw [hstage] at h
    exact ⟨h.1.aside haside, h.2⟩
  · rename_i hstage
    rw [hstage] at h
    exact ⟨h.1.aside haside, h.2⟩
  · trivial

variable {stage : IngestStage}

/-- A transaction moves: its own part is to be shown, the others keep theirs. -/
theorem IngestKept.move (h : IngestKept C w) (hp : w.procs[pid]? = some p) {audit : List EffectRow}
    (haside : Aside HeadRow.key pid w.heads heads') (hsafe : Safe headKey heads')
    (hshrinking : Shrinking headKey heads') (hfits : LogFits C heads' audit)
    (hsound : IngestProc.Sound C { p with stage := stage } heads')
    (howners : ∀ (i : Nat) (s : Slot HeadRow), heads'[i]? = some s → s.owner = some pid →
      ∃ read written, stage = .flushed read written ∧ Stored C p.key pid read written i s)
    (howned : ∀ read written, stage = .flushed read written →
      written = [] ∨ ∃ (i : Nat) (s : Slot HeadRow), heads'[i]? = some s ∧ s.owner = some pid) :
    IngestKept C ⟨heads', audit, w.procs.set pid { p with stage := stage }⟩ where
  safe := hsafe
  shrinking := hshrinking
  fits := hfits
  sound i q hq := by
    rcases getElem?_set_cases hq with ⟨-, rfl⟩ | ⟨-, hold⟩
    · exact hsound
    · exact (h.sound i q hold).aside haside
  owners i s u hs hu := by
    by_cases hne : u = pid
    · subst hne
      obtain ⟨read, written, hstage, hst⟩ := howners i s hs hu
      exact ⟨{ p with stage := stage }, read, written, by simp [List.getElem?_set_self', hp], hstage,
        hst⟩
    · obtain ⟨q, read, written, hq, hstage, hst⟩ := h.owners i s u (haside.back i s u hs hu hne) hu
      exact ⟨q, read, written, by rw [List.getElem?_set_ne (Ne.symm hne)]; exact hq, hstage, hst⟩
  owned i q read written hq hstage := by
    rcases getElem?_set_cases hq with ⟨rfl, rfl⟩ | ⟨hne, hold⟩
    · exact howned read written hstage
    · rcases h.owned i q read written hold hstage with hnil | ⟨j, s, hs, hu⟩
      · exact .inl hnil
      · exact .inr ⟨j, s, haside.forth j s i hs hu hne, hu⟩

/-! ## Statements that commit nothing -/

theorem shows_abort (pid : Nat) (heads : List (Slot HeadRow)) (row : HeadRow) :
    Shows (heads.map (·.abort pid)) row ↔ Shows heads row := by
  unfold Shows
  simp only [List.mem_map, exists_exists_and_eq_and, Slot.committed_abort]

theorem shows_insert (pid : Nat) (heads : List (Slot HeadRow)) (new row : HeadRow) :
    Shows (heads ++ [.fresh pid new]) row ↔ Shows heads row := by
  constructor
  · rintro ⟨s, hs, hrow⟩
    rcases List.mem_append.mp hs with hold | hlast
    · exact ⟨s, hold, hrow⟩
    · rw [List.mem_singleton] at hlast
      subst hlast
      cases hrow
  · rintro ⟨s, hs, hrow⟩
    exact ⟨s, List.mem_append_left _ hs, hrow⟩

variable {heads : List (Slot HeadRow)}

theorem shows_update {hits : Nat → HeadRow → Bool} {f : HeadRow → HeadRow} {matched : Bool}
    (h : update pid hits f heads = some (heads', matched)) (row : HeadRow) :
    Shows heads' row ↔ Shows heads row := by
  constructor
  · rintro ⟨s', hs', hrow⟩
    obtain ⟨i, hi⟩ := List.mem_iff_getElem?.mp hs'
    obtain ⟨s, hs, rfl | rfl⟩ := update_some h hi
    · exact ⟨s', List.mem_of_getElem? hs, hrow⟩
    · rw [Slot.committed_write] at hrow
      exact ⟨s, List.mem_of_getElem? hs, hrow⟩
  · rintro ⟨s, hs, hrow⟩
    obtain ⟨i, hi⟩ := List.mem_iff_getElem?.mp hs
    have hi' := update_getElem? h i
    rw [hi, Option.map_some] at hi'
    refine ⟨_, List.mem_of_getElem? hi', ?_⟩
    split
    · rw [Slot.committed_write]
      exact hrow
    · exact hrow

theorem LogFits.same {audit : List EffectRow} (h : LogFits C heads audit)
    (hshows : ∀ row, Shows heads' row ↔ Shows heads row) :
    LogFits C heads' audit where
  chained := h.chained
  stored row hrow := h.stored row ((hshows row).mp hrow)
  unstored t r hnone := h.unstored t r fun row hrow => hnone row ((hshows row).mpr hrow)

section
variable (h : IngestKept C w) (hp : w.procs[pid]? = some p)
include h hp

/-- A transaction that has not stored its head has no version of a head row. -/
theorem IngestKept.free (hstage : ∀ read written, p.stage ≠ .flushed read written) :
    ∀ (i : Nat) (s : Slot HeadRow), w.heads[i]? = some s → s.owner ≠ some pid := by
  intro i s hs howner
  obtain ⟨q, read, written, hq, hflushed, -⟩ := h.owners i s pid hs howner
  rw [hp] at hq
  cases hq
  exact hstage read written hflushed

theorem IngestKept.rest (haside : Aside HeadRow.key pid w.heads heads')
    (hsafe : Safe headKey heads') (hshrinking : Shrinking headKey heads')
    (hshows : ∀ row, Shows heads' row ↔ Shows w.heads row)
    (hfree : ∀ (i : Nat) (s : Slot HeadRow), heads'[i]? = some s → s.owner ≠ some pid)
    (hsound : IngestProc.Sound C { p with stage := stage } heads')
    (hempty : ∀ read written, stage = .flushed read written → written = []) :
    IngestKept C ⟨heads', w.audit, w.procs.set pid { p with stage := stage }⟩ :=
  h.move hp haside hsafe hshrinking (h.fits.same hshows) hsound
    (fun i s hs howner => absurd howner (hfree i s hs))
    (fun read written hstage => .inl (hempty read written hstage))

theorem IngestKept.abort (hsound : ∀ heads, IngestProc.Sound C { p with stage := stage } heads)
    (hempty : ∀ read written, stage ≠ .flushed read written) :
    IngestKept C ⟨w.heads.map (·.abort pid), w.audit,
      w.procs.set pid { p with stage := stage }⟩ := by
  have hend := Ended.abort pid w.heads
  exact h.rest hp (Aside.abort HeadRow.key pid w.heads) (h.safe.abort pid) (h.shrinking.ended hend)
    (shows_abort pid w.heads) (fun _ _ hs => hend.owner_ne hs) (hsound _)
    (fun read written hstage => absurd hstage (hempty read written))

/-- The statement reads, or writes rows that only the transaction sees. -/
theorem IngestKept.stay (hstage : ∀ read written, p.stage ≠ .flushed read written)
    (hsound : IngestProc.Sound C { p with stage := stage } w.heads)
    (hempty : ∀ read written, stage = .flushed read written → written = []) :
    IngestKept C ⟨w.heads, w.audit, w.procs.set pid { p with stage := stage }⟩ :=
  h.rest hp (Aside.refl HeadRow.key pid w.heads) h.safe h.shrinking (fun _ => Iff.rfl)
    (h.free hp hstage) hsound hempty

end

/-! ## The head is stored -/

theorem givesUp_head (head : ChainHead String) (now : Time) :
    GivesUp headKey fun row => { row with head := head, updatedAt := now } := fun _ _ h => h

theorem loadHead_some {tx tenantId : Nat} {runnerId : String} {id : Nat} {head : ChainHead String}
    (h : loadHead tx tenantId runnerId heads = some (id, head)) :
    ∃ s row, heads[id]? = some s ∧ s.seen tx = some row ∧ row.key = (tenantId, runnerId) := by
  unfold loadHead at h
  obtain ⟨⟨s, i⟩, hmem, hfound⟩ := List.exists_of_findSome?_eq_some h
  obtain ⟨row, hrow, hif⟩ := Option.bind_eq_some_iff.mp hfound
  split at hif
  · rename_i hkey
    cases hif
    exact ⟨s, row, List.mem_zipIdx_iff_getElem?.mp hmem, hrow, hkey⟩
  · cases hif

/-- The head of a verified batch is stored: inserted, or written over the row that was read. -/
theorem IngestKept.persist (h : IngestKept C w) (hp : w.procs[pid]? = some p)
    {read : Option (Nat × ChainHead String)} {head : ChainHead String} {written : List EffectRow}
    {now : Time} (hstage : p.stage = .writing read head [] written)
    (hpersist : persistHead pid p.tenantId p.runnerId read head now w.heads = some (.ok heads')) :
    IngestKept C ⟨heads', w.audit,
      w.procs.set pid { p with stage := .flushed read written }⟩ := by
  have hfree := h.free hp (by simp [hstage])
  have hsound := h.sound pid p hp
  unfold IngestProc.Sound at hsound
  rw [hstage] at hsound
  obtain ⟨hverified, hrecords, hhead⟩ := hsound
  have hwhole : p.records = recordsOf written := by simpa using hrecords
  unfold persistHead at hpersist
  split at hpersist
  · -- the first head of the runner
    rename_i hread
    split at hpersist
    · cases hpersist
    · cases hpersist
    · rename_i hanswer
      cases hpersist
      have haside := Aside.insert HeadRow.key pid w.heads ⟨p.tenantId, p.runnerId, head, now⟩
      refine h.move hp haside ?_ (h.shrinking.insert _) (h.fits.same (shows_insert pid w.heads _))
        ⟨hverified.aside haside, hwhole⟩ ?_ ?_
      · apply h.safe.insert
        intro k hk
        cases hk
        exact Clear.of_free hanswer
      · intro i s hs howner
        rcases getElem?_snoc hs with hold | ⟨-, rfl⟩
        · exact absurd howner (hfree i s hold)
        · exact ⟨none, written, rfl, _, rfl, hhead, rfl⟩
      · intro read' written' _
        exact .inr ⟨w.heads.length, .fresh pid ⟨p.tenantId, p.runnerId, head, now⟩, by simp, rfl⟩
  · -- a later one
    rename_i id head₀
    obtain ⟨⟨heads₁, matched⟩, hupdate, heq⟩ := Option.map_eq_some_iff.mp hpersist
    cases heq
    have haside : Aside HeadRow.key pid w.heads heads₁ := Aside.update hupdate
    obtain ⟨s, row, hs, hrow, hkey⟩ := hverified.row id head₀ rfl
    let new : HeadRow := { row with head := head, updatedAt := now }
    -- nobody has written the row, so the version is the transaction's
    have hone : heads₁ = w.heads.set id (.writing row pid new) :=
      update_one hupdate hs hrow (hfree id s hs)
    have hslot : heads₁[id]? = some (.writing row pid new) := by
      rw [hone, List.getElem?_set_self (List.getElem?_eq_some_iff.mp hs).1]
    refine h.move hp haside (h.safe.update (givesUp_head head now) hupdate)
      (h.shrinking.update (givesUp_head head now) hupdate) (h.fits.same (shows_update hupdate))
      ⟨hverified.aside haside, hwhole⟩ ?_ ?_
    · intro i s' hs' howner
      by_cases hi : i = id
      · subst hi
        rw [hslot] at hs'
        cases hs'
        exact ⟨_, written, rfl, new, hkey, hhead, rfl, row, rfl⟩
      · rw [hone, List.getElem?_set_ne (Ne.symm hi)] at hs'
        exact absurd howner (hfree i s' hs')
    · intro read' written' _
      exact .inr ⟨id, _, hslot, rfl⟩

end Frames

/-! ## The commit -/

section Commit
variable {w : IngestWorld} {pid : Nat} {p : IngestProc} {read : Option (Nat × ChainHead String)}
  {written : List EffectRow}

/-- A version of a head row is of the same runner. -/
theorem IngestKept.key_eq (h : IngestKept C w) :
    ∀ row u new, Slot.writing row u new ∈ w.heads → new.key = row.key := by
  intro row u new hmem
  have hkey := h.shrinking row u new hmem new.key rfl
  exact (Option.some.inj hkey).symm

variable {s : Slot HeadRow}

theorem held_of_committed {heads : List (Slot HeadRow)} (hshrinking : Shrinking headKey heads)
    (hs : s ∈ heads) {row : HeadRow} (hrow : s.committed = some row) (ends : Nat → Bool) :
    held headKey ends s = some row.key := by
  unfold held
  cases s with
  | stable r =>
    cases hrow
    rfl
  | writing r u new =>
    have hr : r = row := Option.some.inj hrow
    subst hr
    have hkey := hshrinking r u new hs new.key rfl
    simp only [Slot.settle, Option.bind_some]
    split
    · exact hkey.symm
    · rfl
  | fresh u new => cases hrow
  | dead => cases hrow

/-- The version a transaction has stored holds its runner's key once it commits. -/
theorem Stored.held {key : Nat × String} {i : Nat} (h : Stored C key pid read written i s) :
    held headKey (fun u => u == pid) s = some key := by
  obtain ⟨new, hkey, -, hslot⟩ := h
  cases read with
  | none =>
    subst hslot
    simp [Lib.held, Slot.settle, headKey, hkey]
  | some r =>
    obtain ⟨-, row, rfl⟩ := hslot
    simp [Lib.held, Slot.settle, headKey, hkey]

theorem effectLog_append (audit : List EffectRow) {key : Nat × String}
    (hown : ∀ row ∈ written, row.owner = key) (t : Nat) (r : String) :
    effectLog (audit ++ written) t r =
      effectLog audit t r ++ if key = (t, r) then recordsOf written else [] := by
  unfold effectLog recordsOf
  rw [List.filter_append, List.map_append]
  congr 1
  split
  · rename_i hkey
    rw [List.filter_eq_self.mpr]
    intro row hrow
    simp [hown row hrow, hkey]
  · rename_i hkey
    rw [List.filter_eq_nil_iff.mpr]
    · rfl
    · intro row hrow
      simp [hown row hrow, hkey]

/-- The chain of a transaction that has stored its head starts where the runner's records end, when
the head it read is still the committed one. -/
theorem IngestKept.base_eq (h : IngestKept C w) (hverified : Verified C p.key w.heads read written)
    (hread : ∀ id head, read = some (id, head) →
      ((w.heads[id]?).bind (·.committed)).map (·.head) = some head)
    {i : Nat} (hs : w.heads[i]? = some s) (hstored : Stored C p.key pid read written i s) :
    base read = (effectChain C).after genesisHead (effectLog w.audit p.tenantId p.runnerId) := by
  cases hr : read with
  | some r =>
    obtain ⟨id, head⟩ := r
    obtain ⟨s', row, hs', hrow, hkey⟩ := hverified.row id head hr
    have hhead := hread id head hr
    rw [hs', Option.bind_some, hrow, Option.map_some, Option.some.injEq] at hhead
    have hfit := h.fits.stored row ⟨s', List.mem_of_getElem? hs', hrow⟩
    have hpair : row.tenantId = p.tenantId ∧ row.runnerId = p.runnerId := Prod.mk.inj hkey
    rw [hpair.1, hpair.2, hhead] at hfit
    exact hfit
  | none =>
    -- a committed row of the runner would hold the key of the one that is inserted
    have hempty : effectLog w.audit p.tenantId p.runnerId = [] := by
      apply h.fits.unstored
      rintro row ⟨s', hs', hrow⟩ hkey
      obtain ⟨j, hj⟩ := List.mem_iff_getElem?.mp hs'
      have hheld := held_of_committed h.shrinking hs' hrow fun u => u == pid
      rw [hkey] at hheld
      have hij := h.safe _ i j s s' _ hs hj hstored.held hheld
      subst hij
      rw [hs] at hj
      cases hj
      obtain ⟨new, -, -, hslot⟩ := hstored
      rw [hr] at hslot
      subst hslot
      cases hrow
    rw [hempty]
    rfl

theorem Stored.committed_commit {key : Nat × String} {i : Nat}
    (h : Stored C key pid read written i s) :
    ∃ new : HeadRow, new.key = key ∧
      new.head = (effectChain C).after (base read) (recordsOf written) ∧
      (s.commit pid).committed = some new := by
  obtain ⟨new, hkey, hhead, hslot⟩ := h
  refine ⟨new, hkey, hhead, ?_⟩
  cases read with
  | none =>
    subst hslot
    simp [Slot.commit, Slot.committed, Slot.settle]
  | some r =>
    obtain ⟨-, old, rfl⟩ := hslot
    simp [Slot.commit, Slot.committed, Slot.settle]

section Fits
variable (h : IngestKept C w) (hp : w.procs[pid]? = some p)
  (hstage : p.stage = .flushed read written)
include h hp hstage

theorem IngestKept.verified : Verified C p.key w.heads read written := by
  have hsound := h.sound pid p hp
  unfold IngestProc.Sound at hsound
  rw [hstage] at hsound
  exact hsound.1

/-- A version of the transaction is what it has stored. -/
theorem IngestKept.stored {i : Nat} {s : Slot HeadRow} (hs : w.heads[i]? = some s)
    (howner : s.owner = some pid) : Stored C p.key pid read written i s := by
  obtain ⟨q, read', written', hq, hflushed, hst⟩ := h.owners i s pid hs howner
  rw [hp] at hq
  cases hq
  rw [hstage] at hflushed
  cases hflushed
  exact hst

/-- A committed row of the transaction's runner is the one it has written, if it has records. -/
theorem IngestKept.owner_of_key {i : Nat} {s : Slot HeadRow} {row : HeadRow}
    (hi : w.heads[i]? = some s) (hrow : s.committed = some row) (hkey : row.key = p.key)
    (hwritten : written ≠ []) : s.owner = some pid := by
  rcases h.owned pid p read written hp hstage with hnil | ⟨j, s', hj, howner⟩
  · exact absurd hnil hwritten
  · -- two rows would hold the key
    have hheld := held_of_committed h.shrinking (List.mem_of_getElem? hi) hrow fun u => u == pid
    have hheld' := (h.stored hp hstage hj howner).held
    rw [hkey] at hheld
    have hij := h.safe _ i j s s' _ hi hj hheld hheld'
    subst hij
    rw [hi] at hj
    cases hj
    exact howner

variable (hread : ∀ id head, read = some (id, head) →
  ((w.heads[id]?).bind (·.committed)).map (·.head) = some head)
include hread

/-- The runner's records continue. -/
theorem IngestKept.chained_commit (t : Nat) (r : String) :
    (effectChain C).Chained genesisHead (effectLog (w.audit ++ written) t r) := by
  have hverified := h.verified hp hstage
  rw [effectLog_append w.audit hverified.own]
  split
  · rename_i hkey
    cases hkey
    rcases h.owned pid p read written hp hstage with rfl | ⟨i, s, hs, howner⟩
    · simpa [recordsOf] using h.fits.chained _ _
    · rw [Chaining.chained_append, ← h.base_eq hverified hread hs (h.stored hp hstage hs howner)]
      exact ⟨h.fits.chained _ _, hverified.chained⟩
  · simpa using h.fits.chained t r

/-- The heads that everybody sees now. -/
theorem IngestKept.shows_commit {row : HeadRow} (hrow : Shows (w.heads.map (·.commit pid)) row) :
    row.head = (effectChain C).after genesisHead
      (effectLog (w.audit ++ written) row.tenantId row.runnerId) := by
  obtain ⟨s', hs', hrow⟩ := hrow
  obtain ⟨s, hs, rfl⟩ := List.mem_map.mp hs'
  obtain ⟨i, hi⟩ := List.mem_iff_getElem?.mp hs
  have hverified := h.verified hp hstage
  rw [effectLog_append w.audit hverified.own]
  by_cases howner : s.owner = some pid
  · have hst := h.stored hp hstage hi howner
    have hbase := h.base_eq hverified hread hi hst
    obtain ⟨new, hkey, hhead, hcommitted⟩ := hst.committed_commit
    rw [hcommitted] at hrow
    cases hrow
    have hpair : row.tenantId = p.tenantId ∧ row.runnerId = p.runnerId := Prod.mk.inj hkey
    rw [hhead, hpair.1, hpair.2, if_pos (show p.key = (p.tenantId, p.runnerId) from rfl),
      Chaining.after_append, hbase]
  · rw [Slot.commit_of_owner_ne howner] at hrow
    have hfit := h.fits.stored row ⟨s, hs, hrow⟩
    split
    · rename_i hkey
      by_cases hwritten : written = []
      · simpa [hwritten, recordsOf] using hfit
      · exact absurd (h.owner_of_key hp hstage hi hrow hkey.symm hwritten) howner
    · simpa using hfit

omit hread in
/-- A runner without a head. -/
theorem IngestKept.unshown_commit {t : Nat} {r : String}
    (hnone : ∀ row, Shows (w.heads.map (·.commit pid)) row → row.key ≠ (t, r)) :
    effectLog (w.audit ++ written) t r = [] := by
  have hbefore : effectLog w.audit t r = [] := by
    apply h.fits.unstored
    rintro row ⟨s, hs, hrow⟩ hkey
    obtain ⟨i, hi⟩ := List.mem_iff_getElem?.mp hs
    obtain ⟨s', row', hs', hrow', hkey'⟩ := (Aside.commit h.key_eq).keeps i s row hi hrow
    exact hnone row' ⟨s', List.mem_of_getElem? hs', hrow'⟩ (hkey'.trans hkey)
  rw [effectLog_append w.audit (h.verified hp hstage).own, hbefore]
  split
  · rename_i hkey
    rcases h.owned pid p read written hp hstage with rfl | ⟨i, s, hi, howner⟩
    · rfl
    · obtain ⟨new, hnew, -, hcommitted⟩ := (h.stored hp hstage hi howner).committed_commit
      have hmem : s.commit pid ∈ w.heads.map (·.commit pid) :=
        List.mem_map_of_mem (List.mem_of_getElem? hi)
      exact absurd (hnew.trans hkey) (hnone new ⟨s.commit pid, hmem, hcommitted⟩)
  · rfl

theorem IngestKept.commit : IngestKept C ⟨w.heads.map (·.commit pid), w.audit ++ written,
    w.procs.set pid { p with stage := .committed }⟩ := by
  have hend := Ended.commit pid w.heads
  have hfits : LogFits C (w.heads.map (·.commit pid)) (w.audit ++ written) :=
    ⟨h.chained_commit hp hstage hread, fun _ => h.shows_commit hp hstage hread,
      fun _ _ => h.unshown_commit hp hstage⟩
  exact h.move hp (Aside.commit h.key_eq) (h.safe.commit pid) (h.shrinking.ended hend) hfits trivial
    (fun _ _ hs howner => absurd howner (hend.owner_ne hs))
    (fun _ _ hflushed => by cases hflushed)

end Fits
end Commit

/-! ## Steps -/

variable {events : List IngestEvent}

theorem IngestKept.exec {w w' : IngestWorld} {pid : Nat} {p : IngestProc} {now : Time}
    {command : Option CommandRow} {stage : IngestStage} (h : IngestKept C w)
    (hp : w.procs[pid]? = some p)
    (hread : ∀ id head written, p.stage = .flushed (some (id, head)) written →
      ((w.heads[id]?).bind (·.committed)).map (·.head) = some head)
    (hexec : p.exec C H pid now command w = some (w', stage, events)) :
    IngestKept C { w' with procs := w.procs.set pid { p with stage := stage } } := by
  have hsound := h.sound pid p hp
  unfold IngestProc.Sound at hsound
  unfold IngestProc.exec at hexec
  split at hexec
  · -- the head is read
    rename_i hstage
    have hfree := h.free hp (by simp [hstage])
    split at hexec
    · rename_i hempty
      cases hexec
      have hnil : p.records = [] := List.isEmpty_iff.mp hempty
      refine h.stay hp (by simp [hstage]) ⟨⟨by simp, trivial, by simp⟩, hnil⟩ ?_
      intro read written hflushed
      cases hflushed
      rfl
    · cases hexec
      refine h.stay hp (by simp [hstage]) ⟨⟨by simp, trivial, ?_⟩, by simp [recordsOf], rfl⟩
        (fun _ _ hflushed => by cases hflushed)
      intro id head hloaded
      obtain ⟨s, row, hs, hrow, hkey⟩ := loadHead_some hloaded
      rw [Slot.seen_of_owner_ne (hfree id s hs)] at hrow
      exact ⟨s, row, hs, hrow, hkey⟩
  · -- a record is verified
    rename_i read head record todo written hstage
    rw [hstage] at hsound
    obtain ⟨hverified, hrecords, hhead⟩ := hsound
    split at hexec
    · cases hexec
      exact h.abort hp (fun _ => trivial) (by simp)
    · rename_i hlink
      cases hexec
      obtain ⟨hrunner, hlinked⟩ := verifyLink_ok_iff.mp hlink
      rw [hhead] at hlinked
      refine h.stay hp (by simp [hstage]) ⟨⟨?_, ?_, hverified.row⟩, ?_, ?_⟩
        (fun _ _ hflushed => by cases hflushed)
      · intro row hrow
        rcases List.mem_append.mp hrow with hold | hlast
        · exact hverified.own row hold
        · rw [List.mem_singleton] at hlast
          subst hlast
          exact congrArg (Prod.mk p.tenantId) hrunner
      · rw [recordsOf, List.map_append, Chaining.chained_append]
        exact ⟨hverified.chained, Chaining.chained_singleton.mpr hlinked⟩
      · rw [recordsOf, List.map_append, List.append_assoc]
        exact hrecords
      · rw [recordsOf, List.map_append, Chaining.after_append]
        rfl
  · -- the head is stored
    rename_i read head written hstage
    split at hexec
    · cases hexec
    · cases hexec
      exact h.abort hp (fun _ => trivial) (by simp)
    · rename_i hpersist
      cases hexec
      exact h.persist hp hstage hpersist
  · -- commit
    rename_i read written hstage
    cases hexec
    refine h.commit hp hstage ?_
    intro id head hr
    subst hr
    exact hread id head written hstage
  · cases hexec

/-- A transaction is opened. -/
theorem IngestKept.start_loading {w : IngestWorld} (h : IngestKept C w) {p : IngestProc}
    (hstage : p.stage = .loading) : IngestKept C { w with procs := w.procs ++ [p] } where
  safe := h.safe
  shrinking := h.shrinking
  fits := h.fits
  sound pid q hq := by
    rcases getElem?_snoc hq with hold | ⟨-, rfl⟩
    · exact h.sound pid q hold
    · unfold IngestProc.Sound
      rw [hstage]
      trivial
  owners i s u hs hu := by
    obtain ⟨q, read, written, hq, hst⟩ := h.owners i s u hs hu
    refine ⟨q, read, written, ?_, hst⟩
    change (w.procs ++ _)[u]? = some q
    rw [List.getElem?_append_left (List.getElem?_eq_some_iff.mp hq).1]
    exact hq
  owned pid q read written hq hflushed := by
    rcases getElem?_snoc hq with hold | ⟨-, rfl⟩
    · exact h.owned pid q read written hold hflushed
    · rw [hstage] at hflushed
      cases hflushed

variable {c : Config IngestWorld IngestEvent}

theorem IngestKept.step (h : IngestKept C c.state) {a : IngestAct} (ha : OnHeadRead c a) :
    IngestKept C ((ingestMachine C H).next c a).state := by
  rcases ingest_next_cases C H c a with hsame | ⟨operatorSub, tenantId, runnerId, records, hnext⟩ |
    ⟨pid, now, command, p, w', stage, events, rfl, hp, hexec, hnext⟩ | ⟨pid, p, hp, -, hnext⟩
  · rw [hsame]
    exact h
  · rw [hnext]
    exact h.start_loading rfl
  · rw [hnext]
    refine h.exec hp ?_ hexec
    intro id head written hstage
    simpa [OnHeadRead, IngestWorld.stageOf, hp, hstage] using ha
  · rw [hnext]
    exact h.abort hp (fun _ => trivial) (by simp)

/-! ## What was seen -/

/-- The records of a runner that the event brought into the audit log. -/
def IngestEvent.batch (t : Nat) (r : String) : IngestEvent → List EffectAuditRecord
  | .ingested tenantId runnerId records => if (tenantId, runnerId) = (t, r) then records else []
  | .rejected .. => []

/-- The event is the end of a transaction that ended so, with its whole batch. -/
def IngestEvent.Ended (procs : List IngestProc) : IngestEvent → Prop
  | .ingested tenantId runnerId records => ∃ p ∈ procs, p.key = (tenantId, runnerId) ∧
      p.records = records ∧ p.stage = .committed
  | .rejected tenantId runnerId records e => ∃ p ∈ procs, p.key = (tenantId, runnerId) ∧
      p.records = records ∧ p.stage = .tampered e

/-- The audit log is what was seen to be ingested, batch by batch. -/
structure IngestSeen (c : Config IngestWorld IngestEvent) : Prop where
  log : ∀ t r, effectLog c.state.audit t r = c.events.flatMap (·.batch t r)
  ended : ∀ e ∈ c.events, e.Ended c.state.procs

theorem exec_shows {w w' : IngestWorld} {pid : Nat} {p : IngestProc} {now : Time}
    {command : Option CommandRow} {stage : IngestStage}
    (hexec : p.exec C H pid now command w = some (w', stage, events)) :
    p.stage.isOpen = true ∧ ((w'.audit = w.audit ∧ events = []) ∨
      (∃ e, w'.audit = w.audit ∧ stage = .tampered e ∧
        events = [.rejected p.tenantId p.runnerId p.records e]) ∨
      ∃ read written, p.stage = .flushed read written ∧ w'.audit = w.audit ++ written ∧
        stage = .committed ∧ events = [.ingested p.tenantId p.runnerId (recordsOf written)]) := by
  unfold IngestProc.exec at hexec
  split at hexec
  · rename_i hstage
    rw [hstage]
    split at hexec <;> (cases hexec; exact ⟨rfl, .inl ⟨rfl, rfl⟩⟩)
  · rename_i hstage
    rw [hstage]
    split at hexec
    · cases hexec
      exact ⟨rfl, .inr (.inl ⟨_, rfl, rfl, rfl⟩)⟩
    · cases hexec
      exact ⟨rfl, .inl ⟨rfl, rfl⟩⟩
  · rename_i hstage
    rw [hstage]
    split at hexec
    · cases hexec
    · cases hexec
      exact ⟨rfl, .inl ⟨rfl, rfl⟩⟩
    · cases hexec
      exact ⟨rfl, .inl ⟨rfl, rfl⟩⟩
  · rename_i read written hstage
    rw [hstage]
    cases hexec
    exact ⟨rfl, .inr (.inr ⟨read, written, rfl, rfl, rfl, rfl⟩)⟩
  · cases hexec

section
variable {procs : List IngestProc} {e : IngestEvent} (h : e.Ended procs)
include h

/-- A transaction that has ended stays as it is while another one, still open, moves. -/
theorem IngestEvent.Ended.set {pid : Nat} {p : IngestProc} (hp : procs[pid]? = some p)
    (hopen : p.stage.isOpen = true) (p' : IngestProc) : e.Ended (procs.set pid p') := by
  have hkeep : ∀ q ∈ procs, q.stage.isOpen = false → q ∈ procs.set pid p' := by
    intro q hq hclosed
    obtain ⟨i, hi⟩ := List.mem_iff_getElem?.mp hq
    refine List.mem_iff_getElem?.mpr ⟨i, ?_⟩
    by_cases hne : i = pid
    · subst hne
      rw [hp] at hi
      cases hi
      rw [hopen] at hclosed
      cases hclosed
    · rw [List.getElem?_set_ne (Ne.symm hne)]
      exact hi
  cases e with
  | ingested t r records | rejected t r records e =>
    obtain ⟨q, hq, hkey, hrecords, hstage⟩ := h
    exact ⟨q, hkeep q hq (by rw [hstage]; rfl), hkey, hrecords, hstage⟩

theorem IngestEvent.Ended.append (p : IngestProc) : e.Ended (procs ++ [p]) := by
  cases e with
  | ingested t r records | rejected t r records e =>
    obtain ⟨q, hq, hrest⟩ := h
    exact ⟨q, List.mem_append_left _ hq, hrest⟩

end

theorem IngestSeen.move (h : IngestSeen c) {pid : Nat} {p p' : IngestProc}
    (hp : c.state.procs[pid]? = some p) (hopen : p.stage.isOpen = true)
    {heads : List (Slot HeadRow)} {audit : List EffectRow}
    (hlog : ∀ t r, effectLog audit t r = effectLog c.state.audit t r ++ events.flatMap (·.batch t r))
    (hended : ∀ e ∈ events, e.Ended (c.state.procs.set pid p')) :
    IngestSeen ⟨⟨heads, audit, c.state.procs.set pid p'⟩, c.events ++ events⟩ where
  log t r := by
    rw [List.flatMap_append, ← h.log t r]
    exact hlog t r
  ended e he := by
    rcases List.mem_append.mp he with hold | hnew
    · exact (h.ended e hold).set hp hopen p'
    · exact hended e hnew

theorem IngestSeen.step (h : IngestSeen c) (hkept : IngestKept C c.state) (a : IngestAct) :
    IngestSeen ((ingestMachine C H).next c a) := by
  rcases ingest_next_cases C H c a with hsame | ⟨operatorSub, tenantId, runnerId, records, hnext⟩ |
    ⟨pid, now, command, p, w', stage, events, rfl, hp, hexec, hnext⟩ | ⟨pid, p, hp, hopen, hnext⟩
  · rw [hsame]
    exact h
  · rw [hnext]
    exact ⟨h.log, fun e he => (h.ended e he).append _⟩
  · rw [hnext]
    have hset : { p with stage := stage } ∈ c.state.procs.set pid { p with stage := stage } :=
      List.mem_set (List.getElem?_eq_some_iff.mp hp).1 _
    obtain ⟨hopen, hshows⟩ := exec_shows hexec
    rcases hshows with ⟨haudit, rfl⟩ | ⟨e, haudit, rfl, rfl⟩ |
      ⟨read, written, hflushed, haudit, rfl, rfl⟩
    · exact h.move hp hopen (by simp [haudit]) (by simp)
    · refine h.move hp hopen (by simp [haudit, IngestEvent.batch]) ?_
      intro e' he'
      rw [List.mem_singleton] at he'
      subst he'
      exact ⟨_, hset, rfl, rfl, rfl⟩
    · have hsound := hkept.sound pid p hp
      unfold IngestProc.Sound at hsound
      rw [hflushed] at hsound
      obtain ⟨hverified, hrecords⟩ := hsound
      refine h.move hp hopen ?_ ?_
      · intro t r
        rw [haudit, effectLog_append c.state.audit hverified.own]
        simp [IngestEvent.batch, IngestProc.key]
      · intro e' he'
        rw [List.mem_singleton] at he'
        subst he'
        exact ⟨_, hset, rfl, hrecords, rfl⟩
  · rw [hnext, ← List.append_nil c.events]
    exact h.move hp hopen (by simp) (by simp)

/-! ## Once, as one chain -/

theorem countP_key_le {audit : List EffectRow} {t : Nat} {r : String}
    (h : (effectChain C).Chained genesisHead (effectLog audit t r)) (n : Int) :
    audit.countP (fun row => row.key = (t, r, n)) ≤ 1 := by
  have hcount : audit.countP (fun row => row.key = (t, r, n)) =
      (effectLog audit t r).countP fun x => x.seq = n := by
    unfold effectLog
    rw [List.countP_map, List.countP_filter]
    congr 1
    funext row
    simp only [EffectRow.key, EffectRow.owner, Prod.mk.injEq, Function.comp_apply,
      Bool.decide_and, Bool.and_comm, Bool.and_left_comm]
  rw [hcount]
  exact h.countP_seq_le n

/-- **Effect records are ingested once, as one chain.** In every run in which each transaction
that read a head commits while that head is still the committed one:

 - a tenant, runner and number has at most one audit row;
 - the audit rows of a runner are a hash chain from genesis on, put together from the batches
  that were ingested, each of them the whole batch of a committed transaction;
 - a record that is not the next one of its runner's chain is rejected with its whole batch;
 - when no two texts have one digest: whatever chain a runner has, a batch that is ingested and
  shows a digest of that chain is, with what was ingested before it, the chain up to there. -/
theorem effects_once (C : Crypto) (H : AuditHashes) {acts : List IngestAct}
    (h : (ingestMachine C H).Along OnHeadRead (ingestMachine C H).begin_ acts) :
    let c := (ingestMachine C H).after acts
    (∀ k, c.state.audit.countP (fun row => row.key = k) ≤ 1) ∧
      (∀ t r, (effectChain C).Chained genesisHead (effectLog c.state.audit t r) ∧
        effectLog c.state.audit t r = c.events.flatMap (·.batch t r)) ∧
      (∀ e ∈ c.events, e.Ended c.state.procs) ∧
      (∀ (pid : Nat) (p : IngestProc) read head x todo written, c.state.procs[pid]? = some p →
        p.stage = .writing read head (x :: todo) written →
        ¬(x.runnerId = p.runnerId ∧ (effectChain C).Linked head x) → ∀ now command, ∃ e,
          ((ingestMachine C H).next c (.exec pid now command)).events =
            c.events ++ [.rejected p.tenantId p.runnerId p.records e] ∧
          ((ingestMachine C H).next c (.exec pid now command)).state.audit = c.state.audit) ∧
      (CollisionFree C → ∀ before t r batch later,
        c.events = before ++ .ingested t r batch :: later →
        ∀ truth, (effectChain C).Chained genesisHead truth → ∀ (i j : Nat) x y,
          batch[i]? = some x → truth[j]? = some y → x.recordHash = y.recordHash →
          before.flatMap (·.batch t r) ++ batch.take (i + 1) = truth.take (j + 1)) := by
  intro c
  have hboth : IngestKept C c.state ∧ IngestSeen c :=
    (ingestMachine C H).along_induct (I := fun c => IngestKept C c.state ∧ IngestSeen c)
      (fun c a hc ha => ⟨hc.1.step ha, hc.2.step hc.1 a⟩)
      ⟨IngestKept.start, ⟨fun _ _ => rfl, by simp [Machine.begin_]⟩⟩ h
  obtain ⟨hkept, hseen⟩ := hboth
  refine ⟨?_, fun t r => ⟨hkept.fits.chained t r, hseen.log t r⟩, hseen.ended, ?_, ?_⟩
  · rintro ⟨t, r, n⟩
    exact countP_key_le (hkept.fits.chained t r) n
  · intro pid p read head x todo written hp hstage hnot now command
    cases hlink : verifyLink C p.runnerId head x with
    | ok u => exact absurd (verifyLink_ok_iff.mp hlink) hnot
    | error e =>
      refine ⟨e, ?_, ?_⟩
      · simp [Machine.next, ingestMachine, IngestWorld.step, hp, IngestProc.exec, hstage, hlink]
      · simp [Machine.next, ingestMachine, IngestWorld.step, hp, IngestProc.exec, hstage, hlink]
  · intro hC before t r batch later hevents truth htruth i j x y hx hy hown
    have hlog : effectLog c.state.audit t r =
        before.flatMap (·.batch t r) ++ (batch ++ later.flatMap (·.batch t r)) := by
      rw [hseen.log, hevents]
      simp [IngestEvent.batch]
    have hchain := hkept.fits.chained t r
    rw [hlog] at hchain
    -- the place of the record in the whole log
    have hi := (List.getElem?_eq_some_iff.mp hx).1
    have hplace : (before.flatMap (·.batch t r) ++ (batch ++ later.flatMap (·.batch t r)))[
        (before.flatMap (·.batch t r)).length + i]? = some x := by
      rw [List.getElem?_append_right (by omega), Nat.add_sub_cancel_left,
        List.getElem?_append_left hi]
      exact hx
    have htake := hchain.take_eq (effectChain_binding hC) genesis_noBrace htruth hplace hy hown
    rw [← htake, Nat.add_assoc, List.take_length_add_append,
      List.take_append_of_le_length (by omega)]

section Race
variable {x y : EffectAuditRecord}

/-- Hashes that keep a digest as it is. -/
def plainHashes : AuditHashes := ⟨id, fun _ => ""⟩

/-- One record of runner `r`, ingested from the first statement to the commit. -/
def ingestAlone (x : EffectAuditRecord) : List IngestAct :=
  [.ingest "sub" 1 "r" [x], .exec 0 0 none, .exec 0 0 none, .exec 0 0 none, .exec 0 0 none]

/-- Two transactions for one more record, which take turns. -/
def ingestTwice (y : EffectAuditRecord) : List IngestAct :=
  [.ingest "sub" 1 "r" [y], .ingest "sub" 1 "r" [y], .exec 1 0 none, .exec 2 0 none,
    .exec 1 0 none, .exec 2 0 none, .exec 1 0 none, .exec 1 0 none, .exec 2 0 none, .exec 2 0 none]

def plainRow (x : EffectAuditRecord) : EffectRow :=
  effectAuditRow plainHashes "sub" 1 x ⟨none, false, none⟩ 0

theorem after_ingestAlone (hx : verifyLink C "r" genesisHead x = .ok ()) :
    (ingestMachine C plainHashes).after (ingestAlone x) =
      ⟨⟨[.stable ⟨1, "r", ⟨x.seq, x.recordHash⟩, 0⟩], [plainRow x],
        [⟨"sub", 1, "r", [x], .committed⟩]⟩, [.ingested 1 "r" [x]]⟩ := by
  simp [ingestAlone, Machine.after, Machine.run, Machine.begin_, Machine.next, ingestMachine,
    IngestWorld.step, IngestProc.exec, loadHead, hx, persistHead, indexAnswer, Slot.commit,
    resolveMintLink, plainRow]

theorem along_ingestAlone (hx : verifyLink C "r" genesisHead x = .ok ()) :
    (ingestMachine C plainHashes).Along OnHeadRead (ingestMachine C plainHashes).begin_
      (ingestAlone x) := by
  simp [ingestAlone, Machine.Along, OnHeadRead, IngestWorld.stageOf, Machine.begin_, Machine.next,
    ingestMachine, IngestWorld.step, IngestProc.exec, loadHead, hx, persistHead, indexAnswer]

/-- Both transactions read the head before either stores its own. -/
theorem audit_ingestTwice (hx : verifyLink C "r" genesisHead x = .ok ())
    (hy : verifyLink C "r" ⟨x.seq, x.recordHash⟩ y = .ok ()) :
    ((ingestMachine C plainHashes).after (ingestAlone x ++ ingestTwice y)).state.audit =
      [plainRow x, plainRow y, plainRow y] := by
  rw [Machine.after, Machine.run_append, ← Machine.after, after_ingestAlone hx]
  simp [ingestTwice, Machine.run, Machine.next, ingestMachine, IngestWorld.step, IngestProc.exec,
    loadHead, hy, persistHead, Slot.commit, Slot.seen, Slot.settle, resolveMintLink, update,
    HeadRow.key, Slot.lockedFor, Slot.write, plainRow]

end Race

/-- The first two records of a runner's log. -/
def firstRecord (C : Crypto) : EffectAuditRecord :=
  ChainDir.newRecord C "r" (recordIntent "c" "op" "ph" none "" "t0") ⟨none, []⟩

def firstDir (C : Crypto) : ChainDir :=
  ChainDir.append C "r" (recordIntent "c" "op" "ph" none "" "t0") ⟨none, []⟩

def secondRecord (C : Crypto) : EffectAuditRecord :=
  (firstDir C).newRecord C "r" (recordOutcome "c" "op" "ph" none "" "ok" "t1")

theorem verify_firstRecord (C : Crypto) : verifyLink C "r" genesisHead (firstRecord C) = .ok () :=
  verifyLink_ok_iff.mpr ⟨rfl, ChainDir.newRecord_linked C "r" _ ⟨none, []⟩⟩

theorem verify_secondRecord (C : Crypto) :
    verifyLink C "r" ⟨(firstRecord C).seq, (firstRecord C).recordHash⟩ (secondRecord C) = .ok () :=
  verifyLink_ok_iff.mpr ⟨rfl, ChainDir.newRecord_linked C "r" _ (firstDir C)⟩

/-- One record is ingested, and is the start of every chain that shows its digest. -/
theorem effects_once_first :
    let c := (ingestMachine hexCrypto plainHashes).after (ingestAlone (firstRecord hexCrypto))
    (∀ k, c.state.audit.countP (fun row => row.key = k) ≤ 1) ∧
      ∀ truth, (effectChain hexCrypto).Chained genesisHead truth → ∀ (j : Nat) y,
        truth[j]? = some y → (firstRecord hexCrypto).recordHash = y.recordHash →
        [firstRecord hexCrypto] = truth.take (j + 1) := by
  intro c
  have hx := verify_firstRecord hexCrypto
  have hevents : c.events = [] ++ .ingested 1 "r" [firstRecord hexCrypto] :: [] := by
    change ((ingestMachine hexCrypto plainHashes).after _).events = _
    rw [after_ingestAlone hx]
    rfl
  obtain ⟨honce, -, -, -, hpinned⟩ := effects_once hexCrypto plainHashes (along_ingestAlone hx)
  refine ⟨honce, ?_⟩
  intro truth htruth j y hy hown
  exact hpinned hexCrypto_collisionFree [] 1 "r" [firstRecord hexCrypto] [] hevents truth htruth 0 j
    _ y rfl hy hown

/-- Two transactions that overlap, with a stored head: one record, two audit rows. -/
theorem ingested_twice : ¬ ∀ acts k, ((ingestMachine hexCrypto plainHashes).after
    acts).state.audit.countP (fun row => row.key = k) ≤ 1 := by
  intro h
  have htwice := h (ingestAlone (firstRecord hexCrypto) ++ ingestTwice (secondRecord hexCrypto))
    (plainRow (secondRecord hexCrypto)).key
  rw [audit_ingestTwice (verify_firstRecord hexCrypto) (verify_secondRecord hexCrypto)] at htwice
  simp only [List.countP_cons, List.countP_nil, decide_true, if_true] at htwice
  omega

end Meho.Gateway
