import Mathlib.Order.Bounds.Basic
import Mathlib.Data.List.Nodup

/- What a worklist collects from a finite table.

References are taken from a stack. Each names an entry or raises, and an entry that is met
for the first time is collected and its own references are put on the stack. The walk ends
(`collect` is total), and its answer is the least set that holds what the first references
name and is closed under the references of its entries (`collect_ok`). It raises for a
reference that some chain of references leads to (`collect_error`). -/
namespace Meho.Lib.Worklist

variable {ρ κ β ε : Type}

/-- A table of named entries with references between them. -/
structure Table (ρ κ β ε : Type) where
  names : List κ
  find : κ → Option β
  named : ∀ {name entry}, find name = some entry → name ∈ names
  nameOf : ρ → Except ε κ
  missing : ρ → ε
  refs : β → List ρ

namespace Table
variable (T : Table ρ κ β ε)

/-- The entry a reference leads to. -/
def target (ref : ρ) : Except ε (κ × β) :=
  match T.nameOf ref with
  | .error e => .error e
  | .ok name =>
    match T.find name with
    | none => .error (T.missing ref)
    | some entry => .ok (name, entry)

def met (closure : List (κ × β)) : List κ := closure.map Prod.fst

/-- The references of an entry on top of the stack, the last one first. -/
def push (entry : β) (pending : List ρ) : List ρ := (T.refs entry).reverse ++ pending

variable {T}

/-- A chain of references leads to the reference. -/
inductive Reachable (T : Table ρ κ β ε) (start : List ρ) : ρ → Prop where
  | start {ref} : ref ∈ start → Reachable T start ref
  | step {via ref name entry} : Reachable T start via → T.target via = .ok (name, entry) →
      ref ∈ T.refs entry → Reachable T start ref

/-- What the first references name is in the set, and with an entry what its references name. -/
structure Closed (T : Table ρ κ β ε) (start : List ρ) (S : Set κ) : Prop where
  root : ∀ ref ∈ start, ∀ name, T.nameOf ref = .ok name → name ∈ S
  step : ∀ name ∈ S, ∀ entry, T.find name = some entry →
    ∀ ref ∈ T.refs entry, ∀ n, T.nameOf ref = .ok n → n ∈ S

/-- The state of a walk: what waits and what is collected is reachable, and a reference that
was seen waits or leads to something collected. -/
structure Walks (T : Table ρ κ β ε) (start : List ρ) (closure : List (κ × β)) (pending : List ρ) :
    Prop where
  waiting : ∀ ref ∈ pending, Reachable T start ref
  collected : ∀ e ∈ closure, ∃ ref, Reachable T start ref ∧ T.target ref = .ok e
  distinct : (met closure).Nodup
  seen : ∀ ref, (ref ∈ start ∨ ∃ e ∈ closure, ref ∈ T.refs e.2) →
    ref ∈ pending ∨ ∃ e ∈ closure, T.target ref = .ok e

variable {ref : ρ} {name : κ}

theorem target_ok {entry : β} :
    T.target ref = .ok (name, entry) ↔ T.nameOf ref = .ok name ∧ T.find name = some entry := by
  unfold target
  split
  · rename_i e hname
    simp [hname]
  · rename_i n hname
    split
    · rename_i hfind
      simp only [hname, reduceCtorEq, Except.ok.injEq, false_iff, not_and]
      rintro rfl
      simp [hfind]
    · rename_i found hfind
      simp only [hname, Except.ok.injEq, Prod.mk.injEq]
      constructor
      · rintro ⟨rfl, rfl⟩
        exact ⟨rfl, hfind⟩
      · rintro ⟨rfl, hsome⟩
        exact ⟨rfl, Option.some.inj (hfind.symm.trans hsome)⟩

theorem Walks.start {start : List ρ} : Walks T start [] start.reverse :=
  ⟨fun _ h => .start (List.mem_reverse.1 h), nofun, List.nodup_nil, by
    rintro ref (h | ⟨e, he, -⟩)
    · exact .inl (List.mem_reverse.2 h)
    · cases he⟩

variable {closure : List (κ × β)}

section
variable {start pending : List ρ} (h : Walks T start closure (ref :: pending))
    (hname : T.nameOf ref = .ok name)
include h hname

theorem Walks.drop (hmet : name ∈ met closure) :
    Walks T start closure pending where
  waiting r hr := h.waiting r (List.mem_cons_of_mem _ hr)
  collected := h.collected
  distinct := h.distinct
  seen r hr := by
    rcases h.seen r hr with hmem | hmem
    · rcases List.mem_cons.1 hmem with rfl | hmem
      · obtain ⟨⟨n, entry⟩, he, rfl⟩ := List.mem_map.1 hmet
        obtain ⟨via, -, hvia⟩ := h.collected _ he
        exact .inr ⟨_, he, target_ok.2 ⟨hname, (target_ok.1 hvia).2⟩⟩
      · exact .inl hmem
    · exact .inr hmem

theorem Walks.collect {entry : β} (hnew : name ∉ met closure) (hfind : T.find name = some entry) :
    Walks T start (closure ++ [(name, entry)]) (T.push entry pending) := by
  have htarget : T.target ref = .ok (name, entry) := target_ok.2 ⟨hname, hfind⟩
  have hreach : Reachable T start ref := h.waiting ref List.mem_cons_self
  constructor
  · intro r hr
    rcases List.mem_append.1 hr with hr | hr
    · exact hreach.step htarget (List.mem_reverse.1 hr)
    · exact h.waiting r (List.mem_cons_of_mem _ hr)
  · intro e he
    rcases List.mem_append.1 he with he | he
    · exact h.collected e he
    · rw [List.mem_singleton.1 he]
      exact ⟨ref, hreach, htarget⟩
  · rw [met, List.map_append, List.map_singleton]
    exact List.nodup_append'.2 ⟨h.distinct, List.nodup_singleton _, by simpa [met] using hnew⟩
  · intro r hr
    have hold : (r ∈ start ∨ ∃ e ∈ closure, r ∈ T.refs e.2) ∨ r ∈ T.refs entry := by
      rcases hr with hr | ⟨e, he, hr⟩
      · exact .inl (.inl hr)
      · rcases List.mem_append.1 he with he | he
        · exact .inl (.inr ⟨e, he, hr⟩)
        · rw [List.mem_singleton.1 he] at hr
          exact .inr hr
    rcases hold with hold | hnext
    · rcases h.seen r hold with hmem | ⟨e, he, hto⟩
      · rcases List.mem_cons.1 hmem with rfl | hmem
        · exact .inr ⟨_, List.mem_append_right _ (List.mem_singleton_self _), htarget⟩
        · exact .inl (List.mem_append_right _ hmem)
      · exact .inr ⟨e, List.mem_append_left _ he, hto⟩
    · exact .inl (List.mem_append_left _ (List.mem_reverse.2 hnext))

end

theorem Walks.complete {start : List ρ} (h : Walks T start closure [])
    (hreach : Reachable T start ref) : ∃ e ∈ closure, T.target ref = .ok e := by
  induction hreach with
  | start hmem => exact (h.seen _ (.inl hmem)).resolve_left (by simp)
  | step hvia hto hmem ih =>
    obtain ⟨e, he, hvia'⟩ := ih
    rw [hto] at hvia'
    injection hvia' with heq
    subst heq
    exact (h.seen _ (.inr ⟨_, he, hmem⟩)).resolve_left (by simp)

theorem Closed.reachable {start : List ρ} {S : Set κ} (h : Closed T start S)
    (hreach : Reachable T start ref) : ∀ name, T.nameOf ref = .ok name → name ∈ S := by
  induction hreach with
  | start hmem => exact h.root _ hmem
  | step hvia hto hmem ih =>
    exact h.step _ (ih _ (target_ok.1 hto).1) _ (target_ok.1 hto).2 _ hmem

/-! ## The walk -/

section Walk
variable [DecidableEq κ] (T)

def unmet (closure : List (κ × β)) : List κ := T.names.filter fun n => n ∉ met closure

variable {closure : List (κ × β)}

theorem length_unmet {name : κ} {entry : β} (hnew : name ∉ met closure)
    (hfind : T.find name = some entry) :
    (T.unmet (closure ++ [(name, entry)])).length < (T.unmet closure).length := by
  have hsub : T.unmet (closure ++ [(name, entry)]) =
      (T.unmet closure).filter fun n => n ≠ name := by
    unfold unmet
    rw [List.filter_filter]
    congr 1
    funext n
    by_cases hn : n = name <;> by_cases hmet : n ∈ closure.map Prod.fst <;>
      simp [met, hn, hmet, -List.mem_map]
  rw [hsub]
  apply List.length_filter_lt_length_iff_exists.2
  exact ⟨name, List.mem_filter.2 ⟨T.named hfind, by simpa using hnew⟩, by simp⟩

/-- The walk: `pending` is the stack, its top first. -/
def collect (closure : List (κ × β)) (pending : List ρ) : Except ε (List (κ × β)) :=
  match pending with
  | [] => .ok closure
  | ref :: rest =>
    match T.nameOf ref with
    | .error e => .error e
    | .ok name =>
      if name ∈ met closure then collect closure rest
      else
        match _hfind : T.find name with
        | none => .error (T.missing ref)
        | some entry => collect (closure ++ [(name, entry)]) (T.push entry rest)
termination_by ((T.unmet closure).length, pending.length)
decreasing_by
  · exact Prod.Lex.right _ (Nat.lt_succ_self _)
  · rename_i hnew
    exact Prod.Lex.left _ _ (T.length_unmet hnew ‹_›)

variable {T}

theorem collect_spec {start pending : List ρ} (h : Walks T start closure pending) :
    match T.collect closure pending with
    | .ok final => Walks T start final []
    | .error e => ∃ ref, Reachable T start ref ∧ T.target ref = .error e := by
  fun_induction T.collect closure pending with
  | case1 closure => exact h
  | case2 closure ref rest e hname =>
    exact ⟨ref, h.waiting ref List.mem_cons_self, by simp [target, hname]⟩
  | case3 closure ref rest name hname hmet ih => exact ih (h.drop hname hmet)
  | case4 closure ref rest name hname hnew hfind =>
    exact ⟨ref, h.waiting ref List.mem_cons_self, by simp [target, hname, hfind]⟩
  | case5 closure ref rest name hname hnew entry hfind ih =>
    exact ih (h.collect hname hnew hfind)

theorem collect_ok {start : List ρ} (h : T.collect [] start.reverse = .ok closure) :
    (∀ e ∈ closure, T.find e.1 = some e.2) ∧ (met closure).Nodup ∧
      IsLeast {S | Closed T start S} {name | name ∈ met closure} ∧
      (∀ e ∈ closure, ∃ ref, Reachable T start ref ∧ T.target ref = .ok e) ∧
      ∀ ref, Reachable T start ref → ∃ e ∈ closure, T.target ref = .ok e := by
  have hstart : Walks T start [] start.reverse := Walks.start
  have hwalk := collect_spec hstart
  rw [h] at hwalk
  have hnamed : ∀ ref, Reachable T start ref → ∀ name, T.nameOf ref = .ok name →
      name ∈ met closure := by
    intro ref hreach name hname
    obtain ⟨⟨n, entry⟩, he, hto⟩ := hwalk.complete hreach
    have hn := (target_ok.1 hto).1
    rw [hname] at hn
    injection hn with hn
    exact List.mem_map.2 ⟨_, he, hn.symm⟩
  refine ⟨?_, hwalk.distinct, ⟨⟨?_, ?_⟩, ?_⟩, hwalk.collected, fun _ => hwalk.complete⟩
  · intro e he
    obtain ⟨ref, -, hto⟩ := hwalk.collected e he
    exact (target_ok.1 hto).2
  · exact fun ref hmem => hnamed ref (.start hmem)
  · intro name hname entry hfind ref hmem
    obtain ⟨⟨n, found⟩, he, rfl⟩ := List.mem_map.1 hname
    obtain ⟨via, hvia, hto⟩ := hwalk.collected _ he
    have hentry : found = entry := Option.some.inj ((target_ok.1 hto).2.symm.trans hfind)
    subst hentry
    exact hnamed ref (hvia.step hto hmem)
  · intro S hS name hname
    obtain ⟨⟨n, entry⟩, he, rfl⟩ := List.mem_map.1 hname
    obtain ⟨ref, hreach, hto⟩ := hwalk.collected _ he
    exact hS.reachable hreach _ (target_ok.1 hto).1

theorem collect_error {start : List ρ} {e : ε} (h : T.collect [] start.reverse = .error e) :
    ∃ ref, Reachable T start ref ∧ T.target ref = .error e := by
  have hstart : Walks T start [] start.reverse := Walks.start
  have hwalk := collect_spec hstart
  rwa [h] at hwalk

end Walk
end Table
end Meho.Lib.Worklist
