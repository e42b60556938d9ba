import Meho.Budget.Transactions

/- One open transaction, and what others may commit meanwhile.

An open transaction has written rows that are as the committed ones with the call's own
change: for a run the columns grow by what it adds, and the limits stay; for a change of
limits the columns stay (`TxOk`). The next statement keeps this (`TxOk.statement`), and so
does the commit of another transaction that wrote other rows, unless it is a run that
wrote a bucket which this one has read and will write (`TxOk.commit`). -/
namespace Meho.Budget
open Meho.Lib

/-! ## Columns -/

inductive Column where
  | tokens
  | cost
  | requests
  deriving DecidableEq, Repr

namespace Column

def all : List Column := [.tokens, .cost, .requests]

theorem mem_all (col : Column) : col ∈ all := by
  cases col <;> decide

def amount : Column → Consumed → Int
  | .tokens, c => c.tokens
  | .cost, c => c.cost
  | .requests, c => c.requests

/-- What the run adds, as the column stores it. -/
def added : Column → Run → Int
  | .tokens, r => r.tokens
  | .cost, r => storedMillionths r.cost
  | .requests, r => r.requests

/-- The run writes the column. -/
def changes : Column → Run → Bool
  | .tokens, r => r.tokens ≠ 0
  | .cost, r => r.cost.coefficient ≠ 0
  | .requests, r => r.requests ≠ 0

theorem added_nonneg (col : Column) (r : Run) : 0 ≤ col.added r := by
  cases col with
  | tokens | requests => exact Int.natCast_nonneg _
  | cost => exact storedMillionths_nonneg r.cost_nonneg

theorem added_of_not_changes {col : Column} {r : Run} (h : col.changes r = false) :
    col.added r = 0 := by
  cases col with
  | tokens =>
    have : r.tokens = 0 := by simpa [changes] using h
    simp [added, this]
  | cost =>
    have hzero : r.cost.coefficient = 0 := by simpa [changes] using h
    have hpow : (0 : Int) < 10 ^ r.cost.places := Int.pow_pos (by decide)
    simp only [added, storedMillionths, roundedDiv, hzero, Int.zero_mul, Int.mul_zero, Int.zero_add,
      Int.le_refl, if_true]
    exact Int.ediv_eq_zero_of_lt (Int.le_of_lt hpow) (by omega)
  | requests =>
    have : r.requests = 0 := by simpa [changes] using h
    simp [added, this]

/-- The column after the write: what was there with what the run adds. -/
theorem amount_updateConsumed {col : Column} {r : Run} {read row : Consumed}
    (hread : col.changes r = true → col.amount read = col.amount row) (hrow : 0 ≤ col.amount row) :
    col.amount (updateConsumed r read row) = col.amount row + col.added r := by
  cases hchanges : col.changes r with
  | false =>
    rw [added_of_not_changes hchanges, Int.add_zero]
    cases col <;> simp_all [changes, amount, updateConsumed]
  | true =>
    have hread := hread hchanges
    cases col with
    | tokens =>
      have hne : r.tokens ≠ 0 := by simpa [changes] using hchanges
      simp only [amount, added, updateConsumed, charged, if_neg hne] at *
      omega
    | cost =>
      have hne : r.cost.coefficient ≠ 0 := by simpa [changes] using hchanges
      simp only [amount, added, updateConsumed, charged, if_neg hne] at *
      rw [hread, storedMillionths_add hrow r.cost_nonneg]
    | requests =>
      have hne : r.requests ≠ 0 := by simpa [changes] using hchanges
      simp only [amount, added, updateConsumed, charged, if_neg hne] at *
      omega

end Column

/-- What a key has consumed. -/
def amountAt (rows : Buckets) (key : BucketKey) (col : Column) : Int := col.amount (consumedOf rows key)

/-! ## One transaction -/

/-- What a finished write made of the committed row. -/
def Work.Wrote (work : Work) (rows : Buckets) (key : BucketKey) (bucket : Bucket) : Prop :=
  match work with
  | .run r => bucket.limits = limitsOf rows key ∧
      ∀ col : Column, col.amount bucket.consumed = amountAt rows key col + col.added r
  | .limits _ => bucket.consumed = consumedOf rows key

/-- What a phase knows of the bucket of the first kind. -/
def Phase.Ok (tx : Tx) (rows : Buckets) : Phase → Prop
  | .select => ∀ key, (tx.written key).isSome → key.windowKind ∉ tx.todo
  | .insert key windowEnd => tx.todo.head? = some key.windowKind ∧
      tx.work.key key.windowKind = .ok (key, windowEnd) ∧
      ∀ other, (tx.written other).isSome → other.windowKind ∉ tx.todo
  | .update key read => tx.todo.head? = some key.windowKind ∧
      (∃ windowEnd, tx.work.key key.windowKind = .ok (key, windowEnd)) ∧
      (∀ other, (tx.written other).isSome → other.windowKind ∉ tx.todo ∨ other = key) ∧
      (tx.written key = some read ∧ rows key = none ∧ read.limits = noLimits ∧
          read.consumed = nothingConsumed ∨
        tx.written key = none ∧ (rows key).isSome ∧
          ∀ r, tx.work = .run r → ∀ col : Column, col.changes r →
            col.amount read.consumed = amountAt rows key col)

/-- An open transaction over the committed rows. -/
structure TxOk (rows : Buckets) (tx : Tx) : Prop where
  todo : tx.todo <:+ tx.work.kinds
  own : ∀ key bucket, tx.written key = some bucket →
    key.windowKind ∈ tx.work.kinds ∧ tx.work.key key.windowKind = .ok (key, bucket.windowEnd)
  finished : ∀ kind ∈ tx.work.kinds, kind ∉ tx.todo →
    ∃ key windowEnd, tx.work.key kind = .ok (key, windowEnd) ∧ (tx.written key).isSome
  wrote : ∀ key bucket, tx.written key = some bucket → key.windowKind ∉ tx.todo →
    tx.work.Wrote rows key bucket
  phase : tx.phase.Ok tx rows

/-- What is committed is canonical: the end is that of the window, and some time is in it. -/
def Canonical (rows : Buckets) : Prop := ∀ key bucket, rows key = some bucket →
  windowEndFor key.windowKind key.windowStart = .ok bucket.windowEnd ∧
    ∃ now, windowStartFor key.windowKind now = .ok key.windowStart

theorem Work.key_ok {work : Work} {kind : WindowKind} {key : BucketKey} {windowEnd : Time}
    (h : work.key kind = .ok (key, windowEnd)) :
    key.tenantId = work.tenantId ∧ key.principalSub = work.principalSub ∧ key.windowKind = kind ∧
      windowStartFor kind work.now = .ok key.windowStart ∧
      windowEndFor kind key.windowStart = .ok windowEnd := bucketKey_ok h

theorem Work.kinds_nodup (work : Work) : work.kinds.Nodup := by
  cases work with
  | run r => exact (by decide : allWindowKinds.Nodup)
  | limits c => exact List.nodup_cons.mpr ⟨List.not_mem_nil, List.nodup_nil⟩

theorem TxOk.start (rows : Buckets) (work : Work) : TxOk rows (Tx.start work) where
  todo := List.suffix_refl _
  own key bucket h := by cases h
  finished kind h hno := absurd h hno
  wrote key bucket h := by cases h
  phase key h := by cases h

section Statement
variable {rows : Buckets} {tx tx' : Tx} {kind : WindowKind} {rest : List WindowKind}

theorem TxOk.head_not_mem (h : TxOk rows tx) (htodo : tx.todo = kind :: rest) : kind ∉ rest := by
  have hnodup : tx.todo.Nodup := h.todo.sublist.nodup tx.work.kinds_nodup
  rw [htodo] at hnodup
  exact (List.nodup_cons.mp hnodup).1

theorem TxOk.head_mem (h : TxOk rows tx) (htodo : tx.todo = kind :: rest) : kind ∈ tx.work.kinds :=
  h.todo.subset (htodo ▸ List.mem_cons_self)

variable {windowEnd : Time}

theorem TxOk.select (h : TxOk rows tx) (htodo : tx.todo = kind :: rest)
    (hphase : tx.phase = .select) {key : BucketKey} (hkey : tx.work.key kind = .ok (key, windowEnd)) :
    tx.written key = none := by
  have hok := h.phase
  rw [hphase] at hok
  by_contra hwritten
  refine hok key (Option.isSome_iff_ne_none.mpr hwritten) ?_
  rw [htodo, (Work.key_ok hkey).2.2.1]
  exact List.mem_cons_self

variable {row : Bucket}

section
variable (h : TxOk rows tx) (htodo : tx.todo = kind :: rest) (hphase : tx.phase = .select)
    {key : BucketKey} (hkey : tx.work.key kind = .ok (key, windowEnd))
include h htodo hphase hkey

theorem TxOk.selected (hrow : rows key = some row) :
    TxOk rows { tx with phase := .update key row } := by
  have hkind := (Work.key_ok hkey).2.2.1
  have hnone := h.select htodo hphase hkey
  have hok := h.phase
  rw [hphase] at hok
  refine ⟨h.todo, h.own, h.finished, h.wrote, ?_, ⟨windowEnd, hkind ▸ hkey⟩,
    fun other hother => .inl (hok other hother), .inr ⟨hnone, ?_, ?_⟩⟩
  · rw [htodo, hkind]
    rfl
  · rw [hrow]
    rfl
  · intro r _ col _
    rw [amountAt, consumedOf_of_some hrow]

theorem TxOk.missed : TxOk rows { tx with phase := .insert key windowEnd } := by
  have hkind := (Work.key_ok hkey).2.2.1
  have hok := h.phase
  rw [hphase] at hok
  refine ⟨h.todo, h.own, h.finished, h.wrote, ?_, hkind ▸ hkey, hok⟩
  rw [htodo, hkind]
  rfl

end

theorem Tx.write_self (tx : Tx) (key : BucketKey) (bucket : Bucket) :
    tx.write key bucket key = some bucket := Function.update_self _ _ _

theorem Tx.write_other (tx : Tx) {key other : BucketKey} (h : other ≠ key) (bucket : Bucket) :
    tx.write key bucket other = tx.written other := Function.update_of_ne h _ _

theorem TxOk.inserted (h : TxOk rows tx) {key : BucketKey}
    (hphase : tx.phase = .insert key windowEnd) (hnone : rows key = none) :
    TxOk rows { tx with
      phase := .update key (newBucket windowEnd), written := tx.write key (newBucket windowEnd) } := by
  have hok := h.phase
  rw [hphase] at hok
  obtain ⟨hhead, hkey, hothers⟩ := hok
  have htodo : key.windowKind ∈ tx.todo := List.mem_of_mem_head? hhead
  refine ⟨h.todo, ?_, ?_, ?_, hhead, ⟨windowEnd, hkey⟩, ?_, .inl ⟨tx.write_self key _, hnone, rfl, rfl⟩⟩
  · intro other bucket hother
    by_cases heq : other = key
    · subst heq
      obtain rfl := Option.some.inj ((tx.write_self other _).symm.trans hother)
      exact ⟨h.todo.subset htodo, hkey⟩
    · exact h.own other bucket ((tx.write_other heq _).symm.trans hother)
  · intro kind hkind hno
    obtain ⟨other, windowEnd', hother, hsome⟩ := h.finished kind hkind hno
    refine ⟨other, windowEnd', hother, ?_⟩
    show (tx.write key (newBucket windowEnd) other).isSome
    by_cases heq : other = key
    · rw [heq, tx.write_self]
      rfl
    · rwa [tx.write_other heq]
  · intro other bucket hother hno
    have heq : other ≠ key := fun heq => hno (heq ▸ htodo)
    exact h.wrote other bucket ((tx.write_other heq _).symm.trans hother) hno
  · intro other hother
    by_cases heq : other = key
    · exact .inr heq
    · change (tx.write key (newBucket windowEnd) other).isSome at hother
      rw [tx.write_other heq] at hother
      exact .inl (hothers other hother)

variable {read : Bucket}

/-- The row that an `UPDATE` finds, and what the transaction read of it before. -/
theorem TxOk.found (h : TxOk rows tx) {key : BucketKey} (hphase : tx.phase = .update key read)
    (hrow : tx.view rows key = some row) :
    row.limits = limitsOf rows key ∧ row.consumed = consumedOf rows key ∧
      (∀ r, tx.work = .run r → ∀ col : Column, col.changes r →
        col.amount read.consumed = amountAt rows key col) ∧
      (tx.written key = some row ∨ rows key = some row) := by
  have hok := h.phase
  rw [hphase] at hok
  obtain ⟨-, -, -, ⟨hwritten, hnone, hlimits, hconsumed⟩ | ⟨hwritten, -, hread⟩⟩ := hok
  · have hrow' : some read = some row := by
      rw [← hrow, Tx.view, hwritten]
      rfl
    obtain rfl := Option.some.inj hrow'
    refine ⟨hlimits.trans (limitsOf_of_none hnone).symm, hconsumed.trans (consumedOf_of_none hnone).symm,
      ?_, .inl hwritten⟩
    intro r _ col _
    rw [amountAt, consumedOf_of_none hnone, hconsumed]
  · have hrow' : rows key = some row := by
      rw [← hrow, Tx.view, hwritten]
      rfl
    exact ⟨(limitsOf_of_some hrow').symm, (consumedOf_of_some hrow').symm, hread, .inr hrow'⟩

theorem TxOk.update_wrote (h : TxOk rows tx) (hnonneg : ∀ key col, 0 ≤ amountAt rows key col)
    {key : BucketKey} (hphase : tx.phase = .update key read) (hrow : tx.view rows key = some row) :
    tx.work.Wrote rows key (tx.work.update read row) := by
  obtain ⟨hlimits, hconsumed, hread, -⟩ := h.found hphase hrow
  cases hwork : tx.work with
  | run r =>
    refine ⟨hlimits, fun col => ?_⟩
    have hamount : col.amount row.consumed = amountAt rows key col := congrArg col.amount hconsumed
    show col.amount (updateConsumed r read.consumed row.consumed) = _
    rw [← hamount]
    apply Column.amount_updateConsumed
    · intro hchanges
      rw [hamount]
      exact hread r hwork col hchanges
    · rw [hamount]
      exact hnonneg key col
  | limits c => exact hconsumed

theorem TxOk.updated (hrows : Canonical rows) (hnonneg : ∀ key col, 0 ≤ amountAt rows key col)
    (h : TxOk rows tx) (htodo : tx.todo = kind :: rest) {key : BucketKey}
    (hphase : tx.phase = .update key read) (hrow : tx.view rows key = some row) :
    TxOk rows { tx with
      todo := rest, phase := .select, written := tx.write key (tx.work.update read row) } := by
  have hwrote := h.update_wrote hnonneg hphase hrow
  obtain ⟨-, -, -, hfrom⟩ := h.found hphase hrow
  have hok := h.phase
  rw [hphase] at hok
  obtain ⟨hhead, ⟨windowEnd, hkey⟩, hothers, -⟩ := hok
  obtain rfl : kind = key.windowKind := by
    rw [htodo] at hhead
    exact Option.some.inj hhead
  have hnotrest := h.head_not_mem htodo
  -- the row was written by this transaction or is one of the table; both end where the key says
  have hend : tx.work.key key.windowKind = .ok (key, (tx.work.update read row).windowEnd) := by
    have hsame : (tx.work.update read row).windowEnd = row.windowEnd := by
      cases tx.work <;> rfl
    rw [hsame]
    rcases hfrom with hwritten | hrow'
    · exact (h.own key row hwritten).2
    · have hcanonical := (hrows key row hrow').1
      obtain rfl := Except.ok.inj ((Work.key_ok hkey).2.2.2.2.symm.trans hcanonical)
      exact hkey
  refine ⟨(List.suffix_cons key.windowKind rest).trans (htodo ▸ h.todo), ?_, ?_, ?_, ?_⟩
  · intro other bucket hother
    by_cases heq : other = key
    · subst heq
      obtain rfl := Option.some.inj ((tx.write_self other _).symm.trans hother)
      exact ⟨h.head_mem htodo, hend⟩
    · exact h.own other bucket ((tx.write_other heq _).symm.trans hother)
  -- the window that was just written is finished, the others were before
  · intro kind hkind hno
    by_cases heq : kind = key.windowKind
    · refine ⟨key, _, heq ▸ hend, ?_⟩
      show (tx.write key (tx.work.update read row) key).isSome
      rw [tx.write_self]
      rfl
    · have hno' : kind ∉ tx.todo := by
        rw [htodo, List.mem_cons, not_or]
        exact ⟨heq, hno⟩
      obtain ⟨other, windowEnd', hother, hsome⟩ := h.finished kind hkind hno'
      refine ⟨other, windowEnd', hother, ?_⟩
      have hne : other ≠ key := by
        rintro rfl
        exact heq (Work.key_ok hother).2.2.1.symm
      show (tx.write key (tx.work.update read row) other).isSome
      rwa [tx.write_other hne]
  · intro other bucket hother hno
    by_cases heq : other = key
    · subst heq
      obtain rfl := Option.some.inj ((tx.write_self other _).symm.trans hother)
      exact hwrote
    · have hother' : tx.written other = some bucket := (tx.write_other heq _).symm.trans hother
      have hmem := hothers other (by rw [hother']; rfl)
      exact h.wrote other bucket hother' (hmem.resolve_right heq)
  · intro other hother
    by_cases heq : other = key
    · rw [heq]
      exact hnotrest
    · change (tx.write key (tx.work.update read row) other).isSome at hother
      rw [tx.write_other heq] at hother
      have hmem := (hothers other hother).resolve_right heq
      rw [htodo] at hmem
      exact fun hin => hmem (List.mem_cons_of_mem _ hin)

/-- What the next statement keeps, and that it writes only rows that nobody holds. -/
theorem TxOk.statement (hrows : Canonical rows) (hnonneg : ∀ key col, 0 ≤ amountAt rows key col)
    (h : TxOk rows tx) {held : BucketKey → Bool} (hs : tx.statement rows held = some tx') :
    TxOk rows tx' ∧
      ∀ key, (tx'.written key).isSome → (tx.written key).isSome ∨ held key = false := by
  have hkept : ∀ {key : BucketKey} {bucket : Bucket}, held key = false →
      ∀ other, (tx.write key bucket other).isSome → (tx.written other).isSome ∨ held other = false := by
    intro key bucket hfree other hother
    by_cases heq : other = key
    · exact .inr (heq ▸ hfree)
    · rw [tx.write_other heq] at hother
      exact .inl hother
  unfold Tx.statement at hs
  split at hs
  · obtain rfl := Option.some.inj hs
    exact ⟨h, fun _ hw => .inl hw⟩
  · rename_i kind rest htodo
    split at hs
    · rename_i hphase
      split at hs
      · cases hs
      · rename_i key windowEnd hkey
        split at hs
        · rename_i row hview
          obtain rfl := Option.some.inj hs
          -- before its first write of a window a transaction sees the table
          have hrow : rows key = some row := by
            rw [← hview, Tx.view, h.select htodo hphase hkey]
            rfl
          exact ⟨h.selected htodo hphase hkey hrow, fun _ hw => .inl hw⟩
        · obtain rfl := Option.some.inj hs
          exact ⟨h.missed htodo hphase hkey, fun _ hw => .inl hw⟩
    · rename_i key windowEnd hphase
      split at hs
      · obtain rfl := Option.some.inj hs
        exact ⟨h, fun _ hw => .inl hw⟩
      · rename_i hfree
        split at hs
        · obtain rfl := Option.some.inj hs
          -- another transaction inserted the bucket first: this one is rolled back and starts again
          exact ⟨TxOk.start rows tx.work, fun _ hw => by cases hw⟩
        · rename_i hnone
          obtain rfl := Option.some.inj hs
          exact ⟨h.inserted hphase (Option.not_isSome_iff_eq_none.mp hnone),
            hkept (Bool.not_eq_true _ ▸ hfree)⟩
    · rename_i key read hphase
      split at hs
      · obtain rfl := Option.some.inj hs
        exact ⟨h, fun _ hw => .inl hw⟩
      · rename_i hfree
        split at hs
        · rename_i row hview
          obtain rfl := Option.some.inj hs
          exact ⟨h.updated hrows hnonneg htodo hphase hview, hkept (Bool.not_eq_true _ ▸ hfree)⟩
        · cases hs

end Statement

/-! ## A commit, seen by the others -/

section Commit
variable {rows : Buckets} {written : Buckets} {key : BucketKey}

theorem commitRows_of_none (h : written key = none) : commitRows rows written key = rows key := by
  unfold commitRows
  rw [h, Option.none_or]

theorem commitRows_of_some {bucket : Bucket} (h : written key = some bucket) :
    commitRows rows written key = some bucket := by
  unfold commitRows
  rw [h, Option.some_or]

theorem commitRows_isSome (h : (rows key).isSome) : (commitRows rows written key).isSome := by
  cases hw : written key with
  | none => rwa [commitRows_of_none hw]
  | some bucket =>
    rw [commitRows_of_some hw]
    rfl

theorem limitsOf_commit_of_none (h : written key = none) :
    limitsOf (commitRows rows written) key = limitsOf rows key := by
  unfold limitsOf
  rw [commitRows_of_none h]

theorem consumedOf_commit_of_none (h : written key = none) :
    consumedOf (commitRows rows written) key = consumedOf rows key := by
  unfold consumedOf
  rw [commitRows_of_none h]

end Commit

/-- A run that commits has written the bucket that another run has read and will write. -/
def overlaps (a b : Tx) : Bool :=
  match a.work, b.work, b.phase with
  | .run r, .run r', .update key _ =>
    (a.written key).isSome && Column.all.any fun col => col.changes r && col.changes r'
  | _, _, _ => false

section Others
variable {rows : Buckets} {a b : Tx}

theorem Work.Wrote.mono {work : Work} {key : BucketKey} {bucket : Bucket} {rows' : Buckets}
    (h : work.Wrote rows key bucket) (hlimits : limitsOf rows' key = limitsOf rows key)
    (hconsumed : consumedOf rows' key = consumedOf rows key) : work.Wrote rows' key bucket := by
  cases work with
  | run r =>
    refine ⟨h.1.trans hlimits.symm, fun col => ?_⟩
    rw [amountAt, hconsumed]
    exact h.2 col
  | limits c => exact h.trans hconsumed.symm

/-- A commit changes no column that the other run has read and will write. -/
theorem amountAt_commit_of_not_overlaps (ha : TxOk rows a) (hdone : a.todo = [])
    (hno : overlaps a b = false) {key : BucketKey} {read : Bucket} (hphase : b.phase = .update key read)
    {r' : Run} (hwork : b.work = .run r') {col : Column} (hchanges : col.changes r' = true) :
    amountAt (commitRows rows a.written) key col = amountAt rows key col := by
  cases hw : a.written key with
  | none => rw [amountAt, consumedOf_commit_of_none hw, amountAt]
  | some bucket =>
    have hwrote := ha.wrote key bucket hw (by rw [hdone]; exact List.not_mem_nil)
    have hbucket : amountAt (commitRows rows a.written) key col = col.amount bucket.consumed := by
      rw [amountAt, consumedOf_of_some (commitRows_of_some hw)]
    cases hawork : a.work with
    | run r =>
      rw [hawork] at hwrote
      have hsame : col.changes r = false := by
        simp only [overlaps, hawork, hwork, hphase, hw, Option.isSome_some, Bool.true_and,
          List.any_eq_false] at hno
        have := hno col col.mem_all
        simpa [hchanges] using this
      rw [hbucket, hwrote.2 col, Column.added_of_not_changes hsame, Int.add_zero]
    | limits c =>
      rw [hawork] at hwrote
      have hconsumed : bucket.consumed = consumedOf rows key := hwrote
      rw [hbucket, hconsumed, amountAt]

/-- What is open stays as it should be when another transaction commits. -/
theorem TxOk.commit (h : TxOk rows b) (ha : TxOk rows a) (hdone : a.todo = [])
    (hexclusive : ∀ key, (b.written key).isSome → a.written key = none) (hno : overlaps a b = false) :
    TxOk (commitRows rows a.written) b := by
  refine ⟨h.todo, h.own, h.finished, ?_, ?_⟩
  · intro key bucket hw hkind
    have hfree := hexclusive key (by rw [hw]; rfl)
    exact (h.wrote key bucket hw hkind).mono (limitsOf_commit_of_none hfree)
      (consumedOf_commit_of_none hfree)
  · have hok := h.phase
    cases hphase : b.phase with
    | select | insert key windowEnd =>
      rw [hphase] at hok
      exact hok
    | update key read =>
      rw [hphase] at hok
      obtain ⟨hhead, hkey, hothers, ⟨hw, hnone, hlimits, hconsumed⟩ | ⟨hw, hsome, hread⟩⟩ := hok
      · have hfree := hexclusive key (by rw [hw]; rfl)
        exact ⟨hhead, hkey, hothers, .inl ⟨hw, (commitRows_of_none hfree).trans hnone, hlimits, hconsumed⟩⟩
      · refine ⟨hhead, hkey, hothers, .inr ⟨hw, commitRows_isSome hsome, ?_⟩⟩
        intro r hwork col hchanges
        rw [amountAt_commit_of_not_overlaps ha hdone hno hphase hwork hchanges]
        exact hread r hwork col hchanges

end Others

end Meho.Budget
