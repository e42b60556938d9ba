import Mathlib.Algebra.Order.BigOperators.Group.List
import Meho.Budget.OpenTransactions

/- What the buckets have consumed (operations/identity_budget.py).

A run adds to what it read, in its own process, and writes the sum. So two runs that read
a bucket before either is committed both write their own sum, and one is lost
(`overlapping_run_is_lost`), although the increment is documented as atomic. In every run of
transactions without such an overlap the buckets are the sums over what is committed
(`budget_accounts_runs`).

No two open transactions have written the same row (`Exclusive`), so a commit adds its run
to exactly the three buckets of its time and leaves what the others have written true. -/
namespace Meho.Budget
open Meho.Lib

/-! ## All transactions -/

/-- The run's bucket of the kind. -/
def Run.hits (r : Run) (key : BucketKey) : Bool :=
  match bucketKey r.tenantId r.principalSub key.windowKind r.now with
  | .ok (own, _) => own = key
  | .error _ => false

theorem Run.hits_iff {r : Run} {key : BucketKey} : r.hits key = true ↔
    ∃ windowEnd, bucketKey r.tenantId r.principalSub key.windowKind r.now = .ok (key, windowEnd) := by
  unfold Run.hits
  cases h : bucketKey r.tenantId r.principalSub key.windowKind r.now with
  | error e => simp
  | ok own =>
    obtain ⟨own, windowEnd⟩ := own
    simp

/-- What the runs of a key add up to. -/
def total (col : Column) (key : BucketKey) (runs : List Run) : Int :=
  ((runs.filter (·.hits key)).map col.added).sum

theorem total_snoc (col : Column) (key : BucketKey) (runs : List Run) (r : Run) :
    total col key (runs ++ [r]) = total col key runs + if r.hits key then col.added r else 0 := by
  unfold total
  cases h : r.hits key <;> simp [List.filter_append, h]

theorem total_nonneg (col : Column) (key : BucketKey) (runs : List Run) : 0 ≤ total col key runs := by
  unfold total
  apply List.sum_nonneg
  intro x hx
  obtain ⟨r, -, rfl⟩ := List.mem_map.mp hx
  exact col.added_nonneg r

/-- No two open transactions have written the same row. -/
def Exclusive (s : Database) : Prop := ∀ i j a b, i ≠ j → s.tx i = some a → s.tx j = some b →
  ∀ key, (a.written key).isSome → b.written key = none

/-- The rows are the sums over the committed runs, and every open transaction is as it should
be. -/
structure Accounted (s : Database) (runs : List Run) : Prop where
  rows : Canonical s.rows
  totals : ∀ key col, amountAt s.rows key col = total col key runs
  counted : ∀ r ∈ runs, ∀ kind, ∃ key windowEnd,
    bucketKey r.tenantId r.principalSub kind r.now = .ok (key, windowEnd) ∧ (s.rows key).isSome
  txs : ∀ i tx, s.tx i = some tx → TxOk s.rows tx
  exclusive : Exclusive s

theorem Accounted.nonneg {s : Database} {runs : List Run} (h : Accounted s runs) (key : BucketKey)
    (col : Column) : 0 ≤ amountAt s.rows key col := by
  rw [h.totals]
  exact total_nonneg col key runs

section Move
variable {s : Database} {i : Nat}

theorem Database.tx_move_other {j : Nat} (hne : i ≠ j) (rows : Buckets) (x : Option Tx) :
    (Database.tx ⟨rows, Parties.moveOne s.txs i x⟩ j) = s.tx j := by
  unfold Database.tx
  rw [Parties.moveOne_other s.txs hne]

theorem Database.tx_move_self (rows : Buckets) (x : Option Tx) {tx : Tx}
    (h : Database.tx ⟨rows, Parties.moveOne s.txs i x⟩ i = some tx) : x = some tx := by
  unfold Database.tx at h
  cases hi : s.txs[i]? with
  | none =>
    have hout : (Parties.moveOne s.txs i x)[i]? = none := by
      rw [List.getElem?_eq_none_iff] at hi ⊢
      simpa [Parties.moveOne] using hi
    rw [show (Database.mk rows (Parties.moveOne s.txs i x)).txs = Parties.moveOne s.txs i x from rfl,
      hout] at h
    cases h
  | some y =>
    rw [show (Database.mk rows (Parties.moveOne s.txs i x)).txs = Parties.moveOne s.txs i x from rfl,
      Parties.moveOne_at hi] at h
    exact h

theorem not_held {key : BucketKey} (h : s.held i key = false) {j : Nat} {b : Tx} (hne : j ≠ i)
    (hb : s.tx j = some b) : b.written key = none := by
  have hj : j < s.txs.length := by
    by_contra hge
    unfold Database.tx at hb
    rw [List.getElem?_eq_none (Nat.le_of_not_lt hge)] at hb
    cases hb
  unfold Database.held at h
  rw [List.any_eq_false] at h
  have := h j (List.mem_range.mpr hj)
  simpa [hne, hb] using this

end Move

section
variable {s : Database} {runs : List Run} (h : Accounted s runs)
include h

theorem Accounted.move (i : Nat) (x : Option Tx)
    (hx : ∀ tx', x = some tx' → TxOk s.rows tx' ∧ ∀ j b, j ≠ i → s.tx j = some b → ∀ key, (tx'.written key).isSome → b.written key = none) :
    Accounted ⟨s.rows, Parties.moveOne s.txs i x⟩ runs := by
  refine ⟨h.rows, h.totals, h.counted, ?_, ?_⟩
  · intro j tx hj
    by_cases hne : i = j
    · subst hne
      exact (hx tx (Database.tx_move_self s.rows x hj)).1
    · rw [Database.tx_move_other hne] at hj
      exact h.txs j tx hj
  · intro j k a b hjk hj hk key hkey
    by_cases hij : i = j
    · subst hij
      rw [Database.tx_move_other hjk] at hk
      exact (hx a (Database.tx_move_self s.rows x hj)).2 k b (Ne.symm hjk) hk key hkey
    · rw [Database.tx_move_other hij] at hj
      by_cases hik : i = k
      · subst hik
        by_contra hwritten
        have hfree := (hx b (Database.tx_move_self s.rows x hk)).2 j a hjk hj key
          (Option.isSome_iff_ne_none.mpr hwritten)
        rw [hfree] at hkey
        cases hkey
      · rw [Database.tx_move_other hik] at hk
        exact h.exclusive j k a b hjk hj hk key hkey

theorem Accounted.begin_ (work : Work) : Accounted (s.step (.begin_ work)).1 runs := by
  have hcases : ∀ j tx, (s.step (.begin_ work)).1.tx j = some tx →
      s.tx j = some tx ∨ tx = Tx.start work := by
    intro j tx hj
    unfold Database.tx at hj ⊢
    change (s.txs ++ [some (Tx.start work)])[j]?.join = some tx at hj
    rcases Nat.lt_trichotomy j s.txs.length with hlt | heq | hgt
    · rw [List.getElem?_append_left hlt] at hj
      exact .inl hj
    · rw [heq, List.getElem?_concat_length] at hj
      exact .inr (Option.some.inj hj).symm
    · rw [List.getElem?_eq_none (by rw [List.length_append]; exact hgt)] at hj
      cases hj
  refine ⟨h.rows, h.totals, h.counted, ?_, ?_⟩
  · intro j tx hj
    rcases hcases j tx hj with hold | rfl
    · exact h.txs j tx hold
    · exact TxOk.start s.rows work
  · intro j k a b hjk hj hk key hkey
    rcases hcases j a hj with ha | rfl
    · rcases hcases k b hk with hb | rfl
      · exact h.exclusive j k a b hjk ha hb key hkey
      · rfl
    · cases hkey

theorem Accounted.statement (i : Nat) : Accounted (s.step (.statement i)).1 runs := by
  cases hi : s.tx i with
  | none =>
    simp only [Database.step, hi]
    exact h
  | some tx =>
    simp only [Database.step, hi]
    apply h.move
    intro tx' hs
    obtain ⟨hok, hkept⟩ := (h.txs i tx hi).statement h.rows h.nonneg hs
    refine ⟨hok, fun j b hne hb key hkey => ?_⟩
    rcases hkept key hkey with hwritten | hfree
    · exact h.exclusive i j tx b (Ne.symm hne) hi hb key hwritten
    · exact not_held hfree hne hb

end

/-- A finished transaction has written exactly the buckets of its call. -/
theorem TxOk.written_iff {rows : Buckets} {tx : Tx} (h : TxOk rows tx) (hdone : tx.todo = [])
    {key : BucketKey} : (tx.written key).isSome ↔
      key.windowKind ∈ tx.work.kinds ∧ ∃ windowEnd, tx.work.key key.windowKind = .ok (key, windowEnd) := by
  constructor
  · intro hsome
    obtain ⟨bucket, hbucket⟩ := Option.isSome_iff_exists.mp hsome
    obtain ⟨hkind, hkey⟩ := h.own key bucket hbucket
    exact ⟨hkind, bucket.windowEnd, hkey⟩
  · rintro ⟨hkind, windowEnd, hkey⟩
    obtain ⟨key', windowEnd', hkey', hsome⟩ := h.finished _ hkind (by rw [hdone]; exact List.not_mem_nil)
    obtain ⟨rfl, -⟩ := Prod.mk.inj (Except.ok.inj (hkey'.symm.trans hkey))
    exact hsome

/-- The runs with those of one more commit. -/
theorem committedRuns_snoc (events : List Work) (work : Work) :
    committedRuns (events ++ [work]) = committedRuns events ++
      match work with
      | .run r => [r]
      | .limits _ => [] := by
  unfold committedRuns
  rw [List.filterMap_append]
  cases work <;> rfl

section Committed
variable {s : Database} {events : List Work} {i : Nat} {tx : Tx}

section
variable (h : Accounted s (committedRuns events)) (hi : s.tx i = some tx) (hdone : tx.todo = [])
include h hi hdone

theorem Accounted.commit_totals (key : BucketKey) (col : Column) :
    amountAt (commitRows s.rows tx.written) key col =
      total col key (committedRuns (events ++ [tx.work])) := by
  have hok := h.txs i tx hi
  have hwritten : (tx.written key).isSome ↔ _ := hok.written_iff hdone
  rw [committedRuns_snoc]
  cases hbucket : tx.written key with
  | none =>
    rw [amountAt, consumedOf_commit_of_none hbucket, ← amountAt, h.totals]
    cases hwork : tx.work with
    | run r =>
      have hno : r.hits key = false := by
        rw [Bool.eq_false_iff, Ne, Run.hits_iff]
        rintro ⟨windowEnd, hkey⟩
        have hsome := hwritten.mpr ⟨by rw [hwork]; exact mem_allWindowKinds _, windowEnd,
          by rw [hwork]; exact hkey⟩
        rw [hbucket] at hsome
        cases hsome
      simp only [total_snoc, hno, Bool.false_eq_true, if_false, Int.add_zero]
    | limits c => simp only [List.append_nil]
  | some bucket =>
    have hwrote := hok.wrote key bucket hbucket (by rw [hdone]; exact List.not_mem_nil)
    rw [amountAt, consumedOf_of_some (commitRows_of_some hbucket)]
    cases hwork : tx.work with
    | run r =>
      have hhits : r.hits key = true := by
        rw [Run.hits_iff]
        obtain ⟨-, windowEnd, hkey⟩ := hwritten.mp (by rw [hbucket]; rfl)
        rw [hwork] at hkey
        exact ⟨windowEnd, hkey⟩
      rw [hwork] at hwrote
      simp only [total_snoc, hhits, if_true]
      rw [hwrote.2 col, h.totals]
    | limits c =>
      rw [hwork] at hwrote
      have hconsumed : bucket.consumed = consumedOf s.rows key := hwrote
      simp only [List.append_nil]
      rw [hconsumed, ← h.totals]
      rfl

theorem Accounted.commit (hno : ∀ j b, j ≠ i → s.tx j = some b → overlaps tx b = false) :
    Accounted ⟨commitRows s.rows tx.written, Parties.moveOne s.txs i none⟩
      (committedRuns (events ++ [tx.work])) := by
  have hok := h.txs i tx hi
  -- a commit ends its own transaction and leaves the open ones
  have hothers : ∀ j b, Database.tx ⟨commitRows s.rows tx.written, Parties.moveOne s.txs i none⟩ j =
      some b → j ≠ i ∧ s.tx j = some b := by
    intro j b hj
    by_cases hij : i = j
    · subst hij
      cases Database.tx_move_self _ none hj
    · rw [Database.tx_move_other hij] at hj
      exact ⟨Ne.symm hij, hj⟩
  refine ⟨?_, h.commit_totals hi hdone, ?_, ?_, ?_⟩
  · intro key bucket hbucket
    cases hw : tx.written key with
    | none =>
      change commitRows s.rows tx.written key = some bucket at hbucket
      rw [commitRows_of_none hw] at hbucket
      exact h.rows key bucket hbucket
    | some written =>
      change commitRows s.rows tx.written key = some bucket at hbucket
      rw [commitRows_of_some hw] at hbucket
      obtain rfl := Option.some.inj hbucket
      obtain ⟨-, -, -, hstart, hend⟩ := Work.key_ok (hok.own key written hw).2
      exact ⟨hend, tx.work.now, hstart⟩
  · intro r hr kind
    have hold : r ∈ committedRuns events → ∃ key windowEnd,
        bucketKey r.tenantId r.principalSub kind r.now = .ok (key, windowEnd) ∧
          (commitRows s.rows tx.written key).isSome := by
      intro hr
      obtain ⟨key, windowEnd, hkey, hsome⟩ := h.counted r hr kind
      exact ⟨key, windowEnd, hkey, commitRows_isSome hsome⟩
    rw [committedRuns_snoc] at hr
    cases hwork : tx.work with
    | limits c =>
      rw [hwork] at hr
      exact hold (by simpa using hr)
    | run r' =>
      rw [hwork] at hr
      rcases List.mem_append.mp hr with hr | hr
      · exact hold hr
      · obtain rfl := List.mem_singleton.mp hr
        -- a run that commits has written the bucket of every window
        obtain ⟨key, windowEnd, hkey, hsome⟩ := hok.finished kind
          (by rw [hwork]; exact mem_allWindowKinds kind) (by rw [hdone]; exact List.not_mem_nil)
        rw [hwork] at hkey
        obtain ⟨bucket, hbucket⟩ := Option.isSome_iff_exists.mp hsome
        refine ⟨key, windowEnd, hkey, ?_⟩
        show (commitRows s.rows tx.written key).isSome
        rw [commitRows_of_some hbucket]
        rfl
  · intro j b hj
    obtain ⟨hne, hb⟩ := hothers j b hj
    exact (h.txs j b hb).commit hok hdone (h.exclusive j i b tx hne hb hi) (hno j b hne hb)
  · intro j k a b hjk hj hk key hkey
    exact h.exclusive j k a b hjk (hothers j a hj).2 (hothers k b hk).2 key hkey

end

end Committed

/-! ## Runs of transactions -/

/-- No run commits a bucket that another open run has read and will write. -/
def Undisturbed (s : Database) : TxAction → Prop
  | .commit i => ∀ j ∈ List.range s.txs.length, j ≠ i → ∀ a ∈ s.tx i, a.todo = [] →
      ∀ b ∈ s.tx j, overlaps a b = false
  | _ => True

instance (s : Database) (a : TxAction) : Decidable (Undisturbed s a) := by
  cases a <;> unfold Undisturbed <;> infer_instance

theorem Accounted.step {c : Config Database Work} (h : Accounted c.state (committedRuns c.events))
    {a : TxAction} (hno : Undisturbed c.state a) :
    Accounted (database.next c a).state (committedRuns (database.next c a).events) := by
  have hnext : ∀ {s : Database} {es : List Work}, c.state.step a = (s, es) →
      Accounted s (committedRuns (c.events ++ es)) →
      Accounted (database.next c a).state (committedRuns (database.next c a).events) := by
    intro s es hstep hs
    show Accounted (c.state.step a).1 (committedRuns (c.events ++ (c.state.step a).2))
    rw [hstep]
    exact hs
  have hidle : c.state.step a = (c.state, []) →
      Accounted (database.next c a).state (committedRuns (database.next c a).events) :=
    fun hstep => hnext hstep (by rw [List.append_nil]; exact h)
  cases a with
  | begin_ work => exact hnext rfl (by rw [List.append_nil]; exact h.begin_ work)
  | statement i =>
    have hquiet : c.state.step (.statement i) = ((c.state.step (.statement i)).1, []) := by
      cases hi : c.state.tx i <;> simp [Database.step, hi]
    exact hnext hquiet (by rw [List.append_nil]; exact h.statement i)
  | commit i =>
    cases hi : c.state.tx i with
    | none => exact hidle (by simp [Database.step, hi])
    | some tx =>
      by_cases hdone : tx.todo = []
      · refine hnext (by simp [Database.step, hi, hdone]) (h.commit hi hdone ?_)
        intro j b hne hb
        refine hno j (List.mem_range.mpr ?_) hne tx hi hdone b hb
        by_contra hge
        unfold Database.tx at hb
        rw [List.getElem?_eq_none (Nat.le_of_not_lt hge)] at hb
        cases hb
      · exact hidle (by simp [Database.step, hi, hdone])
  | rollback i =>
    refine hnext rfl ?_
    rw [List.append_nil]
    apply h.move
    intro tx' hx
    cases hx

theorem accounted_start : Accounted database.begin_.state (committedRuns database.begin_.events) where
  rows key bucket h := by cases h
  totals key col := by cases col <;> rfl
  counted r hr := by cases hr
  txs i tx h := by cases h
  exclusive i j a b _ ha := by cases ha

/-! ## The sums over the windows -/

/-- The run counts in the bucket: it is the principal's, and its time is in the window. -/
structure CountsIn (r : Run) (key : BucketKey) (bucket : Bucket) : Prop where
  tenant : r.tenantId = key.tenantId
  principal : r.principalSub = key.principalSub
  from_ : key.windowStart ≤ r.now.instant
  before : r.now.instant < bucket.windowEnd

theorem countsIn_iff {r : Run} {key : BucketKey} {bucket : Bucket} : CountsIn r key bucket ↔
    r.tenantId = key.tenantId ∧ r.principalSub = key.principalSub ∧
      key.windowStart ≤ r.now.instant ∧ r.now.instant < bucket.windowEnd :=
  ⟨fun h => ⟨h.1, h.2, h.3, h.4⟩, fun ⟨h1, h2, h3, h4⟩ => ⟨h1, h2, h3, h4⟩⟩

instance (r : Run) (key : BucketKey) (bucket : Bucket) : Decidable (CountsIn r key bucket) :=
  decidable_of_iff _ countsIn_iff.symm

def runsIn (key : BucketKey) (bucket : Bucket) (runs : List Run) : List Run :=
  runs.filter fun r => CountsIn r key bucket

section Sums
variable {s : Database} {runs : List Run}

section
variable (h : Accounted s runs) {key : BucketKey} {bucket : Bucket}
    (hbucket : s.rows key = some bucket)
include h hbucket

theorem Accounted.hits_iff {r : Run} (hr : r ∈ runs) :
    r.hits key = true ↔ CountsIn r key bucket := by
  obtain ⟨hend, now, hnow⟩ := h.rows key bucket hbucket
  have hwindow := window_iff hnow hend r.now
  obtain ⟨own, ownEnd, hown, -⟩ := h.counted r hr key.windowKind
  obtain ⟨ht, hp, hk, hstart, -⟩ := bucketKey_ok hown
  have haware : r.now.val.utcoffset.isSome := by
    obtain ⟨day, hday, -⟩ := except_map_eq_ok hstart
    exact (utcDay_ok hday).1
  rw [Run.hits_iff, countsIn_iff]
  constructor
  · rintro ⟨windowEnd, hkey⟩
    obtain ⟨ht', hp', -, hstart', -⟩ := bucketKey_ok hkey
    exact ⟨ht'.symm, hp'.symm, (hwindow.mp hstart').2⟩
  · rintro ⟨htenant, hprincipal, htime⟩
    have hstart' := hwindow.mpr ⟨haware, htime⟩
    refine ⟨ownEnd, ?_⟩
    obtain rfl : own = key := by
      have hsame : own.windowStart = key.windowStart := Except.ok.inj (hstart.symm.trans hstart')
      cases own
      cases key
      simp_all
    exact hown

theorem Accounted.sum (col : Column) :
    col.amount bucket.consumed = ((runsIn key bucket runs).map col.added).sum := by
  have hsame : runs.filter (·.hits key) = runsIn key bucket runs := by
    apply List.filter_congr
    intro r hr
    rw [Bool.eq_iff_iff, h.hits_iff hbucket hr, decide_eq_true_iff]
  rw [← consumedOf_of_some hbucket, ← hsame]
  exact h.totals key col

end

/-- A committed run counts in one bucket of each kind. -/
theorem Accounted.one_bucket (h : Accounted s runs) {r : Run} (hr : r ∈ runs) (kind : WindowKind) :
    ∃ key bucket, (key.windowKind = kind ∧ s.rows key = some bucket ∧ CountsIn r key bucket) ∧
      ∀ key' bucket', key'.windowKind = kind ∧ s.rows key' = some bucket' ∧ CountsIn r key' bucket' →
        key' = key := by
  obtain ⟨key, windowEnd, hkey, hsome⟩ := h.counted r hr kind
  obtain ⟨bucket, hbucket⟩ := Option.isSome_iff_exists.mp hsome
  obtain rfl := (bucketKey_ok hkey).2.2.1
  refine ⟨key, bucket, ⟨rfl, hbucket, ?_⟩, ?_⟩
  · exact (h.hits_iff hbucket hr).mp (Run.hits_iff.mpr ⟨windowEnd, hkey⟩)
  · rintro key' bucket' ⟨hkind, hbucket', hcounts⟩
    obtain ⟨windowEnd', hkey'⟩ := Run.hits_iff.mp ((h.hits_iff hbucket' hr).mpr hcounts)
    rw [hkind] at hkey'
    exact (Prod.mk.inj (Except.ok.inj (hkey'.symm.trans hkey))).1

/-- A run changes no limit and `set_limits` no consumption. -/
theorem Accounted.frame (h : Accounted s runs) {i : Nat} {tx : Tx} (hi : s.tx i = some tx)
    (hdone : tx.todo = []) (key : BucketKey) :
    match tx.work with
    | .run _ => limitsOf (commitRows s.rows tx.written) key = limitsOf s.rows key
    | .limits _ => consumedOf (commitRows s.rows tx.written) key = consumedOf s.rows key := by
  have hok := h.txs i tx hi
  cases hbucket : tx.written key with
  | none =>
    cases tx.work with
    | run r => exact limitsOf_commit_of_none hbucket
    | limits c => exact consumedOf_commit_of_none hbucket
  | some bucket =>
    have hwrote := hok.wrote key bucket hbucket (by rw [hdone]; exact List.not_mem_nil)
    cases hwork : tx.work with
    | run r =>
      rw [hwork] at hwrote
      exact (limitsOf_of_some (commitRows_of_some hbucket)).trans hwrote.1
    | limits c =>
      rw [hwork] at hwrote
      exact (consumedOf_of_some (commitRows_of_some hbucket)).trans hwrote

end Sums

/-- The limit of the column. -/
def Column.limit : Column → Limits → Option Int
  | .tokens, l => l.tokenLimit
  | .cost, l => l.costLimit
  | .requests, l => l.requestLimit

/-- A window whose consumption has reached one of its limits stops runs. -/
theorem windowBreach_of_reached {kind : WindowKind} {reading : BudgetReading} {col : Column} {limit : Int}
    (hlimit : col.limit reading.limits = some limit) (hreached : limit ≤ col.amount reading.consumed) :
    (windowBreach kind reading).isSome := by
  have hcol : reached (col.limit reading.limits) (col.amount reading.consumed) := by
    rw [hlimit]
    exact decide_eq_true hreached
  rw [windowBreach_isSome]
  cases col with
  | tokens => exact .inl hcol
  | cost => exact .inr (.inl hcol)
  | requests => exact .inr (.inr hcol)

theorem getRemaining_of_row {rows : Buckets} {key : BucketKey} {bucket : Bucket} {now : DateTime}
    (hrows : rows key = some bucket) (hstart : windowStartFor key.windowKind now = .ok key.windowStart)
    (hend : windowEndFor key.windowKind key.windowStart = .ok bucket.windowEnd) :
    ∃ reading, getRemaining rows key.tenantId key.principalSub key.windowKind now = .ok reading ∧
      reading.limits = bucket.limits ∧ reading.consumed = bucket.consumed := by
  simp only [getRemaining, bucketKey, hstart, hend, bind, Except.bind, pure, Except.pure]
  refine ⟨_, rfl, ?_, ?_⟩ <;> simp [getOrCreateBucket, hrows]

/-- In every run of transactions in which no run commits a bucket that another open run has
read and will write: each bucket has consumed the sums over the committed runs of its
principal whose time is in its window; each committed run counts in one bucket of each kind; a
run's commit changes no limit, and that of `set_limits` no consumption; and a window whose
sum has reached a limit refuses every run of the principal at a time in it. -/
theorem budget_accounts_runs (acts : List TxAction)
    (h : database.Along (fun c a => Undisturbed c.state a) database.begin_ acts) :
    let s := (database.after acts).state
    let runs := committedRuns (database.after acts).events
    (∀ key bucket, s.rows key = some bucket → ∀ col : Column,
      col.amount bucket.consumed = ((runsIn key bucket runs).map col.added).sum) ∧
    (∀ r ∈ runs, ∀ kind, ∃ key bucket,
      (key.windowKind = kind ∧ s.rows key = some bucket ∧ CountsIn r key bucket) ∧
      ∀ key' bucket', key'.windowKind = kind ∧ s.rows key' = some bucket' ∧ CountsIn r key' bucket' →
        key' = key) ∧
    (∀ i tx, s.tx i = some tx → tx.todo = [] → ∀ key,
      match tx.work with
      | .run _ => limitsOf (s.step (.commit i)).1.rows key = limitsOf s.rows key
      | .limits _ => consumedOf (s.step (.commit i)).1.rows key = consumedOf s.rows key) ∧
    (∀ key bucket, s.rows key = some bucket → ∀ (col : Column) (limit : Int),
      col.limit bucket.limits = some limit → limit ≤ ((runsIn key bucket runs).map col.added).sum →
      ∀ str thresholdBreachReason (at_ : WindowKind → Moment) requestedTier context decision,
        (at_ key.windowKind).rows = s.rows →
        windowStartFor key.windowKind (at_ key.windowKind).now = .ok key.windowStart →
        evaluatePreRunBudget str thresholdBreachReason at_ key.tenantId key.principalSub requestedTier
            context = .ok decision →
          decision.kind = .refuse) := by
  intro s runs
  have haccounted : Accounted s runs :=
    database.along_induct (I := fun c => Accounted c.state (committedRuns c.events))
      (fun _ _ hc ha => hc.step ha) accounted_start h
  refine ⟨fun key bucket hbucket col => haccounted.sum hbucket col,
    fun r hr kind => haccounted.one_bucket hr kind, ?_, ?_⟩
  · intro i tx hi hdone key
    have hframe := haccounted.frame hi hdone key
    have hrows : (s.step (.commit i)).1.rows = commitRows s.rows tx.written := by
      simp [Database.step, hi, hdone]
    rw [hrows]
    exact hframe
  · intro key bucket hbucket col limit hlimit hreached str thresholdBreachReason at_ requestedTier
      context decision hrows hnow heval
    -- the gate reads the bucket of the window, which holds the sum of its runs
    obtain ⟨reading, hread, hlimits, hconsumed⟩ :=
      getRemaining_of_row hbucket hnow (haccounted.rows key bucket hbucket).1
    rw [evaluatePreRunBudget_refuse heval]
    refine .inr ⟨key.windowKind, reading, hrows ▸ hread, ?_⟩
    refine @windowBreach_of_reached _ _ col _ (hlimits ▸ hlimit) ?_
    rw [hconsumed, haccounted.sum hbucket col]
    exact hreached

def tenOClock : DateTime := ⟨⟨2026, 3, 4, 10, 0, 0, 0, some 0⟩, by decide⟩

def runOf (tokens : Nat) : Run := ⟨7, "agent", tokens, ⟨5, 1⟩, 1, tenOClock, by decide⟩

def dailyLimit (tokens : Int) : LimitChange := ⟨7, "agent", .daily, some tokens, none, none, tenOClock⟩

def today : BucketKey := ⟨7, "agent", .daily, 63908265600000000⟩

/-- The gate of another run at this time. -/
def gateAt (rows : Buckets) : Except WindowError BudgetDecision :=
  evaluatePreRunBudget Nat.repr (fun _ => none) (fun _ => ⟨rows, tenOClock⟩) 7 "agent" none ⟨false, []⟩

/-- Two runs of one day that share its bucket one after the other, while a limit is set. -/
def limitedRuns : List TxAction :=
  [TxAction.begin_ (.run (runOf 10)), .begin_ (.limits (dailyLimit 110))] ++
    List.replicate 9 (TxAction.statement 0) ++ [TxAction.commit 0, .begin_ (.run (runOf 100))] ++
    List.replicate 3 (TxAction.statement 1) ++ [TxAction.commit 1] ++
    List.replicate 6 (TxAction.statement 2) ++ [TxAction.commit 2]

/-- The runs have used up the limit, and the next one is refused. -/
theorem budget_accounts_runs_two : ∃ bucket decision,
    (database.after limitedRuns).state.rows today = some bucket ∧
      bucket.consumed = ⟨110, 1000000, 2⟩ ∧
      gateAt (database.after limitedRuns).state.rows = .ok decision ∧ decision.kind = .refuse := by
  have hrow : ((database.after limitedRuns).state.rows today).map
      (fun bucket => (bucket.consumed, Column.tokens.limit bucket.limits)) =
        some (⟨110, 1000000, 2⟩, some 110) := by
    decide +kernel
  obtain ⟨bucket, hbucket, hvalues⟩ := Option.map_eq_some_iff.mp hrow
  obtain ⟨hconsumed, hlimit⟩ := Prod.mk.inj hvalues
  obtain ⟨hsum, -, -, hrefuse⟩ := budget_accounts_runs limitedRuns (by decide +kernel)
  have hdecided : (gateAt (database.after limitedRuns).state.rows).toOption.isSome = true := by
    decide +kernel
  cases hgate : gateAt (database.after limitedRuns).state.rows with
  | error e =>
    rw [hgate] at hdecided
    cases hdecided
  | ok decision =>
    have hreached : (110 : Int) ≤ Column.tokens.amount bucket.consumed := by
      rw [hconsumed]
      decide
    rw [hsum today bucket hbucket .tokens] at hreached
    exact ⟨bucket, decision, hbucket, hconsumed, rfl,
      hrefuse today bucket hbucket .tokens 110 hlimit hreached Nat.repr (fun _ => none) _ none _ decision
        rfl (by decide +kernel) hgate⟩

/-- Two runs that both read the day's bucket before either is committed: the first one's 100
tokens are missing. -/
theorem overlapping_run_is_lost :
    let now : DateTime := ⟨⟨2026, 3, 4, 10, 0, 0, 0, some 0⟩, by decide⟩
    let run (tokens : Nat) : Run := ⟨7, "agent", tokens, ⟨5, 1⟩, 1, now, by decide⟩
    let acts : List TxAction :=
      [TxAction.begin_ (.run (run 10))] ++ List.replicate 9 (TxAction.statement 0) ++
      [TxAction.commit 0, .begin_ (.run (run 100)), .begin_ (.run (run 1000)), .statement 1,
        .statement 2] ++
      List.replicate 5 (TxAction.statement 1) ++ [TxAction.commit 1] ++
      List.replicate 5 (TxAction.statement 2) ++ [TxAction.commit 2]
    let key : BucketKey := ⟨7, "agent", .daily, 63908265600000000⟩
    (committedRuns (database.after acts).events).map Run.tokens = [10, 100, 1000] ∧
      ((database.after acts).state.rows key).map (fun bucket => (bucket.consumed.tokens,
        ((runsIn key bucket (committedRuns (database.after acts).events)).map Run.tokens).sum)) =
          some (1010, 1110) := by
  decide +kernel

/-! ## What is spent stays spent -/

theorem accounted_after {acts : List TxAction}
    (h : database.Along (fun c a => Undisturbed c.state a) database.begin_ acts) :
    Accounted (database.after acts).state (committedRuns (database.after acts).events) :=
  database.along_induct (I := fun c => Accounted c.state (committedRuns c.events))
    (fun _ _ hc ha => hc.step ha) accounted_start h

theorem total_le_append (col : Column) (key : BucketKey) (runs more : List Run) :
    total col key runs ≤ total col key (runs ++ more) := by
  unfold total
  rw [List.filter_append, List.map_append, List.sum_append]
  exact le_add_of_nonneg_right (total_nonneg col key more)

/-- **What is spent stays spent.** In every run of transactions without such an overlap no
bucket's consumption ever falls. So a principal whose window had reached an amount is refused
at every later time in it while a limit of at most this amount is set, whatever else commits. -/
theorem spent_stays_spent (acts later : List TxAction)
    (h : database.Along (fun c a => Undisturbed c.state a) database.begin_ (acts ++ later)) :
    let s := (database.after acts).state
    let s' := (database.after (acts ++ later)).state
    (∀ key col, amountAt s.rows key col ≤ amountAt s'.rows key col) ∧
    ∀ key bucket, s'.rows key = some bucket → ∀ (col : Column) (limit : Int),
      col.limit bucket.limits = some limit → limit ≤ amountAt s.rows key col →
      ∀ str thresholdBreachReason (at_ : WindowKind → Moment) requestedTier context decision,
        (at_ key.windowKind).rows = s'.rows →
        windowStartFor key.windowKind (at_ key.windowKind).now = .ok key.windowStart →
        evaluatePreRunBudget str thresholdBreachReason at_ key.tenantId key.principalSub requestedTier
            context = .ok decision →
          decision.kind = .refuse := by
  intro s s'
  have hbefore := accounted_after (((database.along_append _ _ acts later).mp h).1)
  have hafter := accounted_after h
  obtain ⟨es, hevents⟩ : ∃ es, (database.after (acts ++ later)).events =
      (database.after acts).events ++ es := by
    rw [Machine.after, database.run_append]
    exact database.run_events _ later
  have hmono : ∀ key col, amountAt s.rows key col ≤ amountAt s'.rows key col := by
    intro key col
    have hruns : committedRuns ((database.after acts).events ++ es) =
        committedRuns (database.after acts).events ++ committedRuns es := List.filterMap_append
    rw [hbefore.totals, hafter.totals, hevents, hruns]
    exact total_le_append col key _ _
  refine ⟨hmono, fun key bucket hbucket col limit hlimit hreached str thresholdBreachReason at_
    requestedTier context decision hrows hnow heval => ?_⟩
  obtain ⟨reading, hread, hlimits, hconsumed⟩ :=
    getRemaining_of_row hbucket hnow (hafter.rows key bucket hbucket).1
  rw [evaluatePreRunBudget_refuse heval]
  refine .inr ⟨key.windowKind, reading, hrows ▸ hread, ?_⟩
  refine @windowBreach_of_reached _ _ col _ (hlimits ▸ hlimit) ?_
  rw [hconsumed, ← consumedOf_of_some hbucket]
  exact hreached.trans (hmono key col)

/-- A limit of what the first run used. -/
def usedUp : List TxAction :=
  [TxAction.begin_ (.run (runOf 10))] ++ List.replicate 9 (TxAction.statement 0) ++
    [TxAction.commit 0, .begin_ (.limits (dailyLimit 10))] ++
    List.replicate 3 (TxAction.statement 1) ++ [TxAction.commit 1]

/-- A run that was let in before. -/
def nextRun : List TxAction :=
  [TxAction.begin_ (.run (runOf 100))] ++ List.replicate 9 (TxAction.statement 2) ++
    [TxAction.commit 2]

/-- The limit was reached before the next run was committed, and is after it. -/
theorem spent_stays_spent_two : ∃ decision,
    amountAt (database.after usedUp).state.rows today .tokens = 10 ∧
      gateAt (database.after (usedUp ++ nextRun)).state.rows = .ok decision ∧
      decision.kind = .refuse := by
  have hrow : ((database.after (usedUp ++ nextRun)).state.rows today).map
      (fun bucket => Column.tokens.limit bucket.limits) = some (some 10) := by
    decide +kernel
  obtain ⟨bucket, hbucket, hlimit⟩ := Option.map_eq_some_iff.mp hrow
  have hspent : amountAt (database.after usedUp).state.rows today .tokens = 10 := by decide +kernel
  have hrefuse := (spent_stays_spent usedUp nextRun (by decide +kernel)).2 today bucket hbucket .tokens
    10 hlimit (le_of_eq hspent.symm)
  have hdecided : (gateAt (database.after (usedUp ++ nextRun)).state.rows).toOption.isSome = true := by
    decide +kernel
  cases hgate : gateAt (database.after (usedUp ++ nextRun)).state.rows with
  | error e =>
    rw [hgate] at hdecided
    cases hdecided
  | ok decision =>
    refine ⟨decision, hspent, rfl, ?_⟩
    have hstart : windowStartFor today.windowKind tenOClock = .ok today.windowStart := by
      decide +kernel
    generalize (database.after (usedUp ++ nextRun)).state.rows = rows at hrefuse hgate
    exact hrefuse Nat.repr (fun _ => none) (fun _ => ⟨rows, tenOClock⟩) none ⟨false, []⟩ decision rfl
      hstart hgate

end Meho.Budget
