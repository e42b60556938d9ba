import Meho.Gateway.EffectIngest

/- An honest runner forwards its effect records.

The runner's directory and the centre's head of its chain are two copies of
 where the chain stands, and nothing keeps them together but the order in which
the runner works. A forward sends every record file there is. The centre takes
the batch or refuses it, in one step, and its answer may be
lost. Files are deleted when an answer said that they were taken
(`ForwardAct.mark`), and a crash may come between the two files of an append or
between two deletions.

`Orderly` is the state in which a forward is safe: no record file is ahead of
`head.json`, none is one that the centre has already, and the names of the files
are in the order of the numbers, as they are below 10^12 (`namesInOrder`). Then
what reaches the centre is one chain and nothing is refused (`honest_chain`). A
forward after a lost answer, and a forward between the two files of an append,
are not (`honest_flagged`). -/
namespace Meho.Gateway
open Meho.Lib
open Meho.Runner

/-! ## The system -/

/-- The runner's directory, the number up to which it knows the centre's answer, and the head the
centre has stored for the runner. -/
structure ForwardWorld where
  dir : ChainDir
  acked : Int
  centre : Option (ChainHead String)

/-- A batch that reached the centre, and what `ingest_effect_records` made of it. -/
structure Forwarded where
  records : List EffectAuditRecord
  answer : Except EffectChainTamperError Unit

/-- What the runner does, and what happens to it. -/
inductive ForwardAct where
  | append (e : Effect)
  | crashAppend (e : Effect)
  | forward (answered : Bool)
  | mark (upToSeq : Int)
  | crashMark (upToSeq : Int) (n : Nat)

/-- The number up to which a batch was answered for. -/
def ackedUpTo (acked : Int) (batch : List EffectAuditRecord) : Int :=
  match batch.getLast? with
  | none => acked
  | some r => r.seq

section System
variable (C : Crypto) (runnerId : String)

def ForwardWorld.step (w : ForwardWorld) : ForwardAct → ForwardWorld × List Forwarded
  | .append e => ({ w with dir := w.dir.append C runnerId e }, [])
  | .crashAppend e => ({ w with dir := w.dir.appendRecord C runnerId e }, [])
  | .forward answered =>
    let batch := w.dir.unforwarded
    match ingestEffectRecords C runnerId w.centre batch with
    | .error e => (w, [⟨batch, .error e⟩])
    | .ok head =>
      ({ w with
        acked := if answered then ackedUpTo w.acked batch else w.acked
        centre := head }, [⟨batch, .ok ()⟩])
  -- an honest runner deletes what was answered for
  | .mark upToSeq =>
    (if upToSeq ≤ w.acked then { w with dir := w.dir.markForwarded upToSeq } else w, [])
  | .crashMark upToSeq n =>
    (if upToSeq ≤ w.acked then { w with dir := w.dir.markSome upToSeq n } else w, [])

def forwardMachine : Machine ForwardWorld ForwardAct Forwarded where
  start := { dir := ⟨none, []⟩, acked := -1, centre := none }
  step := ForwardWorld.step C runnerId

end System

/-- The number of the last record the centre has. -/
def ForwardWorld.centreSeq (w : ForwardWorld) : Int := (w.centre.getD genesisHead).lastSeq

/-- The order of the names is the order of the numbers. -/
def NamesInOrder (files : List EffectAuditRecord) : Prop :=
  ∀ f ∈ files, ∀ g ∈ files, f.seq < g.seq → nameLe (recordName f.seq) (recordName g.seq) = true

instance NamesInOrder.decidable (files : List EffectAuditRecord) : Decidable (NamesInOrder files) :=
  inferInstanceAs (Decidable (∀ f ∈ files, ∀ g ∈ files, f.seq < g.seq →
    nameLe (recordName f.seq) (recordName g.seq) = true))

/-- A forward finds files that the head covers, that the centre does not have and whose names are
 in order. -/
def Orderly (c : Config ForwardWorld Forwarded) : ForwardAct → Prop
  | .forward _ => NamesInOrder c.state.dir.files ∧ ∀ f ∈ c.state.dir.files,
      f.seq ≤ c.state.dir.readHead.lastSeq ∧ c.state.centreSeq < f.seq
  | _ => True

instance Orderly.decidable (c : Config ForwardWorld Forwarded) (a : ForwardAct) :
    Decidable (Orderly c a) := by
  unfold Orderly
  split <;> infer_instance

/-- Every record that reached the centre, in order. -/
def reached (events : List Forwarded) : List EffectAuditRecord := events.flatMap (·.records)

/-- Numbers of at most twelve digits. -/
theorem namesInOrder {files : List EffectAuditRecord}
    (h : ∀ f ∈ files, 0 ≤ f.seq ∧ f.seq < 10 ^ 12) : NamesInOrder files := by
  intro f hf g hg hlt
  exact recordName_le (h f hf).1 hlt (h g hg).2

/-- Files in the order of their numbers are read in that order. -/
theorem unforwarded_of_chained {C : Crypto} {d : ChainDir} {head : ChainHead String}
    (hchain : (effectChain C).Chained head d.files) (hnames : NamesInOrder d.files) :
    d.unforwarded = d.files := by
  unfold ChainDir.unforwarded
  apply List.Pairwise.insertionSort_eq
  rw [List.pairwise_iff_getElem]
  intro i j hi hj hij
  have hseqi : d.files[i].seq = head.lastSeq + 1 + i :=
    hchain.seq_eq (List.getElem?_eq_getElem hi)
  have hseqj : d.files[j].seq = head.lastSeq + 1 + j :=
    hchain.seq_eq (List.getElem?_eq_getElem hj)
  exact hnames _ (List.getElem_mem hi) _ (List.getElem_mem hj) (by omega)

/-! ## The invariant -/

/-- The files of the directory: those the centre has, those it does not have yet, and one that the
head does not cover. -/
structure Parts (C : Crypto) (runnerId : String) (w : ForwardWorld) (events : List Forwarded)
    (old pending orphan : List EffectAuditRecord) : Prop where
  files : w.dir.files = old ++ (pending ++ orphan)
  chained : (effectChain C).Chained genesisHead (reached events ++ pending)
  head : w.dir.readHead = (effectChain C).after genesisHead (reached events ++ pending)
  centre : w.centre.getD genesisHead = (effectChain C).after genesisHead (reached events)
  old_le : ∀ f ∈ old, f.seq ≤ w.centreSeq
  orphan_eq : ∀ f ∈ orphan, f.seq = w.dir.readHead.lastSeq + 1
  runner : ∀ f ∈ pending, f.runnerId = runnerId
  acked_le : w.acked ≤ w.centreSeq
  answers : ∀ e ∈ events, e.answer = .ok ()

def ForwardKept (C : Crypto) (runnerId : String) (c : Config ForwardWorld Forwarded) : Prop :=
  ∃ old pending orphan, Parts C runnerId c.state c.events old pending orphan

section Steps
variable {C : Crypto} {runnerId : String} {w : ForwardWorld} {events : List Forwarded}
  {old pending orphan : List EffectAuditRecord}

theorem Parts.start (C : Crypto) (runnerId : String) :
    Parts C runnerId (forwardMachine C runnerId).begin_.state [] [] [] [] where
  files := rfl
  chained := trivial
  head := rfl
  centre := rfl
  old_le := by simp
  orphan_eq := by simp
  runner := by simp
  acked_le := Int.le_refl _
  answers := by simp

section
variable (h : Parts C runnerId w events old pending orphan)
include h

theorem Parts.chained_pending : (effectChain C).Chained (w.centre.getD genesisHead) pending := by
  rw [h.centre]
  exact (Chaining.chained_append.mp h.chained).2

theorem Parts.readHead_eq :
    w.dir.readHead = (effectChain C).after (w.centre.getD genesisHead) pending := by
  rw [h.head, h.centre, Chaining.after_append]

theorem Parts.lastSeq_eq : w.dir.readHead.lastSeq = w.centreSeq + pending.length := by
  rw [h.readHead_eq]
  exact h.chained_pending.lastSeq_after

theorem Parts.pending_bounds {f : EffectAuditRecord} (hf : f ∈ pending) :
    w.centreSeq < f.seq ∧ f.seq ≤ w.dir.readHead.lastSeq := by
  obtain ⟨i, hi⟩ := List.mem_iff_getElem?.mp hf
  have hlt : i < pending.length := (List.getElem?_eq_some_iff.mp hi).1
  have hseq : f.seq = w.centreSeq + 1 + i := h.chained_pending.seq_eq hi
  have hhead := h.lastSeq_eq
  omega

/-! ## Appends -/

theorem Parts.filter_files :
    w.dir.files.filter (·.seq ≠ w.dir.readHead.lastSeq + 1) = old ++ pending := by
  have hhead := h.lastSeq_eq
  have hkept : (old ++ pending).filter (·.seq ≠ w.dir.readHead.lastSeq + 1) = old ++ pending := by
    rw [List.filter_eq_self]
    intro f hf
    have hle : f.seq ≤ w.dir.readHead.lastSeq := by
      rcases List.mem_append.mp hf with hold | hpending
      · have hcentre := h.old_le f hold
        omega
      · exact (h.pending_bounds hpending).2
    simp only [ne_eq, decide_not, Bool.not_eq_true', decide_eq_false_iff_not]
    omega
  have hgone : orphan.filter (·.seq ≠ w.dir.readHead.lastSeq + 1) = [] := by
    rw [List.filter_eq_nil_iff]
    intro f hf
    simp [h.orphan_eq f hf]
  rw [h.files, ← List.append_assoc, List.filter_append, hkept, hgone, List.append_nil]

theorem Parts.crashAppend (e : Effect) :
    Parts C runnerId { w with dir := w.dir.appendRecord C runnerId e } events old pending
      [w.dir.newRecord C runnerId e] where
  files := by
    change w.dir.files.filter (·.seq ≠ w.dir.readHead.lastSeq + 1) ++ _ = _
    rw [h.filter_files, List.append_assoc]
  chained := h.chained
  head := h.head
  centre := h.centre
  old_le := h.old_le
  orphan_eq f hf := by
    rw [List.mem_singleton.mp hf]
    rfl
  runner := h.runner
  acked_le := h.acked_le
  answers := h.answers

theorem Parts.append (e : Effect) :
    Parts C runnerId { w with dir := w.dir.append C runnerId e } events old
      (pending ++ [w.dir.newRecord C runnerId e]) [] where
  files := by
    rw [List.append_nil, ← List.append_assoc, ← h.filter_files]
    rfl
  chained := by
    rw [← List.append_assoc, Chaining.chained_append, ← h.head, Chaining.chained_singleton]
    exact ⟨h.chained, ChainDir.newRecord_linked C runnerId e w.dir⟩
  head := by
    rw [← List.append_assoc, Chaining.after_append]
    rfl
  centre := h.centre
  old_le := h.old_le
  orphan_eq := by simp
  runner f hf := by
    rcases List.mem_append.mp hf with hold | hnew
    · exact h.runner f hold
    · rw [List.mem_singleton.mp hnew]
      rfl
  acked_le := h.acked_le
  answers := h.answers

/-! ## Deletions -/

theorem Parts.delete {keep : EffectAuditRecord → Bool}
    (hkeep : ∀ f, w.centreSeq < f.seq → keep f = true) :
    Parts C runnerId { w with dir := { w.dir with files := w.dir.files.filter keep } } events
      (old.filter keep) pending orphan where
  files := by
    have hpending : pending.filter keep = pending := by
      rw [List.filter_eq_self]
      exact fun f hf => hkeep f (h.pending_bounds hf).1
    have horphan : orphan.filter keep = orphan := by
      rw [List.filter_eq_self]
      intro f hf
      have hhead := h.lastSeq_eq
      have hseq := h.orphan_eq f hf
      exact hkeep f (by omega)
    simp only
    rw [h.files, List.filter_append, List.filter_append, hpending, horphan]
  chained := h.chained
  head := h.head
  centre := h.centre
  old_le f hf := h.old_le f (List.mem_of_mem_filter hf)
  orphan_eq := h.orphan_eq
  runner := h.runner
  acked_le := h.acked_le
  answers := h.answers

theorem Parts.mark {upToSeq : Int} (hle : upToSeq ≤ w.acked) :
    Parts C runnerId { w with dir := w.dir.markForwarded upToSeq }
      events (old.filter (upToSeq < ·.seq)) pending orphan := by
  apply h.delete
  intro f hf
  have hacked := h.acked_le
  exact decide_eq_true (by omega)

theorem Parts.crashMark {upToSeq : Int} (hle : upToSeq ≤ w.acked) (n : Nat) :
    Parts C runnerId { w with dir := w.dir.markSome upToSeq n } events
      (old.filter fun f => upToSeq < f.seq || f ∉ w.dir.unforwarded.take n) pending orphan := by
  apply h.delete
  intro f hf
  have hacked := h.acked_le
  have hlt : upToSeq < f.seq := by omega
  simp [hlt]

/-! ## Forwards -/

theorem Parts.files_eq
    (hfiles : ∀ f ∈ w.dir.files, f.seq ≤ w.dir.readHead.lastSeq ∧ w.centreSeq < f.seq) :
    w.dir.files = pending := by
  have hold : old = [] := by
    rw [List.eq_nil_iff_forall_not_mem]
    intro f hf
    have hle := h.old_le f hf
    have hlt := (hfiles f (by rw [h.files]; exact List.mem_append_left _ hf)).2
    omega
  have horphan : orphan = [] := by
    rw [List.eq_nil_iff_forall_not_mem]
    intro f hf
    have heq := h.orphan_eq f hf
    have hle := (hfiles f (by
      rw [h.files]
      exact List.mem_append_right _ (List.mem_append_right _ hf))).1
    omega
  rw [h.files, hold, horphan, List.nil_append, List.append_nil]

end

/-- The answer is for nothing that the centre does not have. -/
theorem ackedUpTo_le {head : ChainHead String} {batch : List EffectAuditRecord} {acked : Int}
    (hacked : acked ≤ head.lastSeq) (hchain : (effectChain C).Chained head batch) :
    ackedUpTo acked batch ≤ ((effectChain C).after head batch).lastSeq := by
  have hlast := hchain.lastSeq_after
  unfold ackedUpTo
  cases hbatch : batch.getLast? with
  | none =>
    simp only
    omega
  | some r =>
    rw [List.getLast?_eq_getElem?] at hbatch
    have hlt : batch.length - 1 < batch.length := (List.getElem?_eq_some_iff.mp hbatch).1
    have hseq : r.seq = head.lastSeq + 1 + (batch.length - 1 : Nat) := hchain.seq_eq hbatch
    simp only
    omega

theorem reached_snoc (events : List Forwarded) (e : Forwarded) :
    reached (events ++ [e]) = reached events ++ e.records := by
  simp [reached]

/-- The centre takes what is pending, and answers. -/
theorem Parts.forward (h : Parts C runnerId w events old pending orphan)
    (hbatch : w.dir.files = pending) {head : Option (ChainHead String)} {acked : Int}
    (hhead : head.getD genesisHead = (effectChain C).after (w.centre.getD genesisHead) pending)
    (hacked : acked = w.acked ∨ acked = ackedUpTo w.acked pending) :
    Parts C runnerId { w with acked := acked, centre := head } (events ++ [⟨pending, .ok ()⟩])
      pending [] [] := by
  have hseq : (head.getD genesisHead).lastSeq = w.centreSeq + pending.length := by
    rw [hhead]
    exact h.chained_pending.lastSeq_after
  refine ⟨?_, ?_, ?_, ?_, ?_, by simp, by simp, ?_, ?_⟩
  · simpa using hbatch
  · rw [reached_snoc, List.append_nil]
    exact h.chained
  · rw [reached_snoc, List.append_nil]
    exact h.head
  · rw [reached_snoc, Chaining.after_append, ← h.centre]
    exact hhead
  · intro f hf
    have hle := (h.pending_bounds hf).2
    rw [h.lastSeq_eq] at hle
    change f.seq ≤ (head.getD genesisHead).lastSeq
    omega
  · change acked ≤ (head.getD genesisHead).lastSeq
    rcases hacked with rfl | rfl
    · have hold := h.acked_le
      omega
    · rw [hhead]
      exact ackedUpTo_le h.acked_le h.chained_pending
  · intro e he
    rcases List.mem_append.mp he with hold | hnew
    · exact h.answers e hold
    · rw [List.mem_singleton.mp hnew]

end Steps

/-! ## Runs -/

variable {c : Config ForwardWorld Forwarded} {a : ForwardAct}

section
variable {C : Crypto} {runnerId : String}

theorem forwardMachine_next {w : ForwardWorld} {sent : List Forwarded}
    (h : c.state.step C runnerId a = (w, sent)) :
    (forwardMachine C runnerId).next c a = ⟨w, c.events ++ sent⟩ := by
  simp [Machine.next, forwardMachine, h]

theorem Parts.kept {w : ForwardWorld} {old pending orphan : List EffectAuditRecord}
    (h : Parts C runnerId w c.events old pending orphan)
    (hstep : c.state.step C runnerId a = (w, [])) :
    ForwardKept C runnerId ((forwardMachine C runnerId).next c a) := by
  rw [forwardMachine_next hstep, List.append_nil]
  exact ⟨old, pending, orphan, h⟩

theorem ForwardKept.step (h : ForwardKept C runnerId c) (ha : Orderly c a) :
    ForwardKept C runnerId ((forwardMachine C runnerId).next c a) := by
  obtain ⟨old, pending, orphan, hparts⟩ := h
  cases a with
  | append e => exact (hparts.append e).kept rfl
  | crashAppend e => exact (hparts.crashAppend e).kept rfl
  | forward answered =>
    obtain ⟨hnames, hfiles⟩ := ha
    have hbatch := hparts.files_eq hfiles
    have hchain := hparts.chained_pending
    have hread : c.state.dir.unforwarded = pending := by
      rw [← hbatch]
      exact unforwarded_of_chained (by rw [hbatch]; exact hchain) hnames
    obtain ⟨head, hok, hhead⟩ := ingestEffectRecords_ok hparts.runner hchain
    have hstep : c.state.step C runnerId (.forward answered) =
        ({ c.state with
            acked := if answered then ackedUpTo c.state.acked pending else c.state.acked
            centre := head }, [⟨pending, .ok ()⟩]) := by
      simp [ForwardWorld.step, hread, hok]
    rw [forwardMachine_next hstep]
    refine ⟨pending, [], [], hparts.forward hbatch hhead ?_⟩
    cases answered with
    | true => exact .inr rfl
    | false => exact .inl rfl
  | mark upToSeq =>
    by_cases hle : upToSeq ≤ c.state.acked
    · exact (hparts.mark hle).kept (by simp [ForwardWorld.step, hle])
    · exact hparts.kept (by simp [ForwardWorld.step, hle])
  | crashMark upToSeq n =>
    by_cases hle : upToSeq ≤ c.state.acked
    · exact (hparts.crashMark hle n).kept (by simp [ForwardWorld.step, hle])
    · exact hparts.kept (by simp [ForwardWorld.step, hle])

end

/-- **An honest runner's chain is not flagged.** In every run whose forwards are orderly, the
records that reach the centre are one hash chain, numbered from 0 on without a gap and with one
record for a number, and no batch is refused. -/
theorem honest_chain (C : Crypto) (runnerId : String) {acts : List ForwardAct}
    (h : (forwardMachine C runnerId).Along Orderly (forwardMachine C runnerId).begin_ acts) :
    let c := (forwardMachine C runnerId).after acts
    (effectChain C).Chained genesisHead (reached c.events) ∧
      (∀ (i : Nat) r, (reached c.events)[i]? = some r → r.seq = i) ∧
      (∀ (i j : Nat) r r', (reached c.events)[i]? = some r → (reached c.events)[j]? = some r' →
        r.seq = r'.seq → i = j ∧ r = r') ∧
      ∀ e ∈ c.events, e.answer = .ok () := by
  intro c
  have hkept : ForwardKept C runnerId c :=
    (forwardMachine C runnerId).along_induct (fun _ _ hc ha => hc.step ha)
      ⟨[], [], [], Parts.start C runnerId⟩ h
  obtain ⟨old, pending, orphan, hparts⟩ := hkept
  have hchain := (Chaining.chained_append.mp hparts.chained).1
  refine ⟨hchain, ?_, ?_, hparts.answers⟩
  · intro i r hr
    have hseq : r.seq = genesisHead.lastSeq + 1 + i := hchain.seq_eq hr
    rw [hseq]
    simp [genesisHead]
  · intro i j r r' hr hr' hseq
    obtain rfl := hchain.seq_unique hr hr' hseq
    rw [hr] at hr'
    exact ⟨rfl, Option.some.inj hr'⟩

section Short
variable {C : Crypto} {runnerId : String} {w : ForwardWorld} {x : EffectAuditRecord}

/-- A forward of one record that the centre waits for. -/
theorem step_forward_linked (hfiles : w.dir.files = [x]) (hrunner : x.runnerId = runnerId)
    (hlink : (effectChain C).Linked (w.centre.getD genesisHead) x) (answered : Bool) :
    w.step C runnerId (.forward answered) =
      ({ w with
          acked := if answered then x.seq else w.acked
          centre := some ⟨x.seq, x.recordHash⟩ }, [⟨[x], .ok ()⟩]) := by
  have hread : w.dir.unforwarded = [x] := by
    unfold ChainDir.unforwarded
    rw [hfiles]
    rfl
  have hverify := verifyLink_ok_iff.mpr ⟨hrunner, hlink⟩
  simp [ForwardWorld.step, hread, ingestEffectRecords, verifyRecords, hverify, ackedUpTo]

/-- A forward of one record that the centre has. -/
theorem step_forward_old (hfiles : w.dir.files = [x]) (hseq : x.seq ≤ w.centreSeq)
    (answered : Bool) :
    ∃ e, w.step C runnerId (.forward answered) = (w, [⟨[x], .error e⟩]) := by
  have hread : w.dir.unforwarded = [x] := by
    unfold ChainDir.unforwarded
    rw [hfiles]
    rfl
  cases hverify : verifyLink C runnerId (w.centre.getD genesisHead) x with
  | error e =>
    exact ⟨e, by simp [ForwardWorld.step, hread, ingestEffectRecords, verifyRecords, hverify]⟩
  | ok u =>
    have hnext : x.seq = w.centreSeq + 1 := (verifyLink_ok_iff.mp hverify).2.seq_eq
    omega

/-- Two effects, each forwarded, answered for and deleted. -/
def inTurn (e e' : Effect) : List ForwardAct :=
  [.append e, .forward true, .mark 0, .append e', .forward true]

/-- The answer to a forward is lost, and the forward is made again. -/
def answerLost (e : Effect) : List ForwardAct := [.append e, .forward false, .forward true]

/-- A forward between the two files of an append, and an append after it. -/
def headLost (e e' : Effect) : List ForwardAct :=
  [.crashAppend e, .forward true, .mark 0, .append e', .forward true]

theorem orderly_single {c : Config ForwardWorld Forwarded} (hfiles : c.state.dir.files = [x])
    (hname : 0 ≤ x.seq ∧ x.seq < 10 ^ 12) (hhead : x.seq ≤ c.state.dir.readHead.lastSeq)
    (hcentre : c.state.centreSeq < x.seq) (answered : Bool) : Orderly c (.forward answered) := by
  unfold Orderly
  rw [hfiles]
  refine ⟨namesInOrder ?_, ?_⟩
  · intro f hf
    rw [List.mem_singleton.mp hf]
    exact hname
  · intro f hf
    rw [List.mem_singleton.mp hf]
    exact ⟨hhead, hcentre⟩

theorem inTurn_orderly (C : Crypto) (runnerId : String) (e e' : Effect) :
    (forwardMachine C runnerId).Along Orderly (forwardMachine C runnerId).begin_ (inTurn e e') := by
  let M := forwardMachine C runnerId
  let x := ChainDir.newRecord C runnerId e ⟨none, []⟩
  let head : ChainHead String := ⟨x.seq, x.recordHash⟩
  let y := ChainDir.newRecord C runnerId e' ⟨some head, []⟩
  have hlink : (effectChain C).Linked genesisHead x :=
    ChainDir.newRecord_linked C runnerId e ⟨none, []⟩
  have hrunner : x.runnerId = runnerId := rfl
  have hforward : M.next ⟨⟨⟨some head, [x]⟩, -1, none⟩, []⟩ (.forward true) =
      ⟨⟨⟨some head, [x]⟩, x.seq, some head⟩, [⟨[x], .ok ()⟩]⟩ :=
    forwardMachine_next (step_forward_linked (x := x) rfl hrunner hlink true)
  have hx : x.seq = 0 := rfl
  have hy : y.seq = 1 := rfl
  refine ⟨trivial, ?_, ?_⟩
  · refine orderly_single (x := x) rfl (by omega) (Int.le_refl _) ?_ true
    change -1 < x.seq
    omega
  · change M.Along Orderly (M.next ⟨⟨⟨some head, [x]⟩, -1, none⟩, []⟩ (.forward true)) _
    rw [hforward]
    refine ⟨trivial, trivial, ?_, trivial⟩
    refine orderly_single (x := y) rfl (by omega) (Int.le_refl _) ?_ true
    change x.seq < y.seq
    omega

theorem answerLost_events (C : Crypto) (runnerId : String) (e : Effect) :
    ∃ x err, ((forwardMachine C runnerId).after (answerLost e)).events =
      [⟨[x], .ok ()⟩, ⟨[x], .error err⟩] := by
  let M := forwardMachine C runnerId
  let x := ChainDir.newRecord C runnerId e ⟨none, []⟩
  let d : ChainDir := ⟨some ⟨x.seq, x.recordHash⟩, [x]⟩
  have hlink : (effectChain C).Linked genesisHead x :=
    ChainDir.newRecord_linked C runnerId e ⟨none, []⟩
  have hrunner : x.runnerId = runnerId := rfl
  have happend : M.next M.begin_ (.append e) = ⟨⟨d, -1, none⟩, []⟩ := rfl
  have hforward : M.next ⟨⟨d, -1, none⟩, []⟩ (.forward false) =
      ⟨⟨d, -1, some ⟨x.seq, x.recordHash⟩⟩, [⟨[x], .ok ()⟩]⟩ :=
    forwardMachine_next (step_forward_linked (x := x) rfl hrunner hlink false)
  obtain ⟨err, hstep⟩ := step_forward_old (C := C) (x := x)
    (w := ⟨d, -1, some ⟨x.seq, x.recordHash⟩⟩) rfl (Int.le_refl _) true
  refine ⟨x, err, ?_⟩
  change (M.next (M.next (M.next M.begin_ (.append e)) (.forward false)) (.forward true)).events = _
  rw [happend, hforward, forwardMachine_next hstep]
  rfl

theorem headLost_events (C : Crypto) (runnerId : String) (e e' : Effect) :
    ∃ err, ((forwardMachine C runnerId).after (headLost e e')).events =
      [⟨[ChainDir.newRecord C runnerId e ⟨none, []⟩], .ok ()⟩,
        ⟨[ChainDir.newRecord C runnerId e' ⟨none, []⟩], .error err⟩] := by
  let M := forwardMachine C runnerId
  let x := ChainDir.newRecord C runnerId e ⟨none, []⟩
  let y := ChainDir.newRecord C runnerId e' ⟨none, []⟩
  let head : Option (ChainHead String) := some ⟨x.seq, x.recordHash⟩
  have hlink : (effectChain C).Linked genesisHead x :=
    ChainDir.newRecord_linked C runnerId e ⟨none, []⟩
  have hrunner : x.runnerId = runnerId := rfl
  have hcrash : M.next M.begin_ (.crashAppend e) = ⟨⟨⟨none, [x]⟩, -1, none⟩, []⟩ := rfl
  have hforward : M.next ⟨⟨⟨none, [x]⟩, -1, none⟩, []⟩ (.forward true) =
      ⟨⟨⟨none, [x]⟩, x.seq, head⟩, [⟨[x], .ok ()⟩]⟩ :=
    forwardMachine_next (step_forward_linked (x := x) rfl hrunner hlink true)
  have hmark : M.next ⟨⟨⟨none, [x]⟩, x.seq, head⟩, [⟨[x], .ok ()⟩]⟩ (.mark 0) =
      ⟨⟨⟨none, []⟩, x.seq, head⟩, [⟨[x], .ok ()⟩]⟩ := rfl
  have happend : M.next ⟨⟨⟨none, []⟩, x.seq, head⟩, [⟨[x], .ok ()⟩]⟩ (.append e') =
      ⟨⟨⟨some ⟨y.seq, y.recordHash⟩, [y]⟩, x.seq, head⟩, [⟨[x], .ok ()⟩]⟩ := rfl
  -- the two records have one number
  obtain ⟨err, hstep⟩ := step_forward_old (C := C) (x := y)
    (w := ⟨⟨some ⟨y.seq, y.recordHash⟩, [y]⟩, x.seq, head⟩) rfl (Int.le_refl _) true
  refine ⟨err, ?_⟩
  change (M.next (M.next (M.next (M.next (M.next M.begin_ (.crashAppend e)) (.forward true))
    (.mark 0)) (.append e')) (.forward true)).events = _
  rw [hcrash, hforward, hmark, happend, forwardMachine_next hstep]
  rfl

end Short

def firstEffect : Effect := recordIntent "c" "op" "ph" none "" "t0"

def secondEffect : Effect := recordOutcome "c" "op" "ph" none "" "ok" "t1"

/-- Two effects in turn. -/
theorem honest_chain_in_turn :
    (forwardMachine hexCrypto "r").Along Orderly (forwardMachine hexCrypto "r").begin_
        (inTurn firstEffect secondEffect) ∧
      (∀ (i : Nat) r, (reached ((forwardMachine hexCrypto "r").after
        (inTurn firstEffect secondEffect)).events)[i]? = some r → r.seq = i) ∧
      ∀ e ∈ ((forwardMachine hexCrypto "r").after (inTurn firstEffect secondEffect)).events,
        e.answer = .ok () := by
  have h := inTurn_orderly hexCrypto "r" firstEffect secondEffect
  obtain ⟨-, hseq, -, hanswers⟩ := honest_chain hexCrypto "r" h
  exact ⟨h, hseq, hanswers⟩

/-- A forward that is made again after a lost answer is refused. A forward between the two files
of an append leads to a second record for a number, and that one is refused. -/
theorem honest_flagged :
    (∃ e ∈ ((forwardMachine hexCrypto "r").after (answerLost firstEffect)).events,
        e.answer ≠ .ok ()) ∧
      (∃ e ∈ ((forwardMachine hexCrypto "r").after (headLost firstEffect secondEffect)).events,
        e.answer ≠ .ok ()) ∧
      ∃ r ∈ reached ((forwardMachine hexCrypto "r").after
          (headLost firstEffect secondEffect)).events,
        ∃ r' ∈ reached ((forwardMachine hexCrypto "r").after
            (headLost firstEffect secondEffect)).events, r.seq = r'.seq ∧ r ≠ r' := by
  obtain ⟨x, err, hlost⟩ := answerLost_events hexCrypto "r" firstEffect
  obtain ⟨err', hcrashed⟩ := headLost_events hexCrypto "r" firstEffect secondEffect
  have hphase : (ChainDir.newRecord hexCrypto "r" firstEffect ⟨none, []⟩).phase ≠
      (ChainDir.newRecord hexCrypto "r" secondEffect ⟨none, []⟩).phase := by
    change EffectPhase.intent ≠ .outcome
    decide
  have hseq : (ChainDir.newRecord hexCrypto "r" firstEffect ⟨none, []⟩).seq =
      (ChainDir.newRecord hexCrypto "r" secondEffect ⟨none, []⟩).seq := rfl
  rw [hlost, hcrashed]
  generalize ChainDir.newRecord hexCrypto "r" firstEffect ⟨none, []⟩ = y at hphase hseq ⊢
  generalize ChainDir.newRecord hexCrypto "r" secondEffect ⟨none, []⟩ = z at hphase hseq ⊢
  refine ⟨⟨⟨[x], .error err⟩, by simp, by simp⟩, ⟨⟨[z], .error err'⟩, by simp, by simp⟩,
    y, by simp [reached], z, by simp [reached], hseq, ?_⟩
  rintro rfl
  exact hphase rfl

end Meho.Gateway
