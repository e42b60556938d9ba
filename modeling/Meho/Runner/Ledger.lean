import Meho.Lib.History
import Meho.Lib.Index
import Meho.Lib.Ticket
import Meho.Runner.Executor

/- The runner's record of executed commands (runner/spool.py,
`execute_command_once` in runner/executor.py).

A delivery is a process. It creates the marker file of the command, and only
the process that created it goes on to execute; every other one reads the file
and hands back what is in it. The result replaces the marker by a rename, so
the file is empty or holds a whole result. The steps of `DeliveryProc` are the
writes of the files and the call of the handler:

  arrived     the step creates the marker, or finds one.
  duplicate   the step reads the file and returns.
  recorded    the marker is this delivery's; the step screens the item and calls
              the handler, or has the result of a refusal.
  running     the handler runs; the step is its end.
  storing     the step writes the result to the temporary file.
  replacing   the step renames it over the marker.
  returning   the step returns.

A process may be gone after any step, and so may all of them at once when the
runner stops; the files stay. Each command is a ticket that is used once
(`Ticket`): the marker is its claim, the call its start, the rename its result.

Correspondence: `ExecutedCommandStore.record` ↔ the step of `arrived`,
`load_result` ↔ the step of `duplicate`, `store_result` ↔ the steps of `storing`
and `replacing`, `execute_command_once` ↔ `deliveryStep`. -/
namespace Meho.Runner
open Meho.Lib

/-! ## Files -/

/-- The file of a command. -/
inductive Entry where
  | absent
  | marker
  | stored (r : RunnerResult)

/-- The ledger directory: an entry and a temporary file for each command. -/
structure Ledger where
  entry : String → Entry
  tmp : String → Option RunnerResult

def Ledger.empty : Ledger := ⟨fun _ => .absent, fun _ => none⟩

def Ledger.setEntry (l : Ledger) (commandId : String) (e : Entry) : Ledger :=
  { l with entry := fun id => if id = commandId then e else l.entry id }

def Ledger.setTmp (l : Ledger) (commandId : String) (r : Option RunnerResult) : Ledger :=
  { l with tmp := fun id => if id = commandId then r else l.tmp id }

@[simp] theorem Ledger.setEntry_self (l : Ledger) (id : String) (e : Entry) :
    (l.setEntry id e).entry id = e := if_pos rfl

theorem Ledger.setEntry_ne (l : Ledger) {id id' : String} (e : Entry) (h : id' ≠ id) :
    (l.setEntry id e).entry id' = l.entry id' := if_neg h

@[simp] theorem Ledger.setTmp_self (l : Ledger) (id : String) (r : Option RunnerResult) :
    (l.setTmp id r).tmp id = r := if_pos rfl

theorem Ledger.setTmp_ne (l : Ledger) {id id' : String} (r : Option RunnerResult)
    (h : id' ≠ id) : (l.setTmp id r).tmp id' = l.tmp id' := if_neg h

/-! ## Deliveries -/

/-- A delivery, by the write it is before. -/
inductive DeliveryProc where
  | arrived (commandId : String) (item : RunnerWorkItem)
  | duplicate (commandId : String) (item : RunnerWorkItem)
  | recorded (commandId : String) (item : RunnerWorkItem)
  | running (commandId : String) (item : RunnerWorkItem)
  | storing (commandId : String) (r : RunnerResult)
  | replacing (commandId : String) (r : RunnerResult)
  | returning (commandId : String) (r : RunnerResult)
  | done

/-- What a step of a delivery leaves behind. -/
inductive LedgerEvent where
  | invoked (commandId : String) (call : Invocation)
  | ended (commandId : String)
  | stored (commandId : String) (r : RunnerResult)
  | returned (pid : Nat) (commandId : String) (r : RunnerResult)

/-- The handler of the command is called. -/
def LedgerEvent.invokes (commandId : String) : LedgerEvent → Bool
  | .invoked id _ => id = commandId
  | _ => false

def duplicateDelivery (env : RunnerEnv) (commandId : String) (item : RunnerWorkItem) :
    RunnerResult :=
  env.result item "refused" none (some ("duplicate_delivery: command " ++ commandId ++
    " already recorded, no spooled result to re-submit"))

/-- A delivery after one step, with what it wrote. -/
structure DeliveryStep where
  ledger : Ledger
  proc : DeliveryProc
  events : List LedgerEvent

variable (C : Crypto)

/-- One step of a delivery. -/
def deliveryStep (env : RunnerEnv) (outcome : HandlerOutcome) (pid : Nat) (l : Ledger) :
    DeliveryProc → DeliveryStep
  | .arrived id item =>
    match l.entry id with
    | .absent => ⟨l.setEntry id .marker, .recorded id item, []⟩
    | _ => ⟨l, .duplicate id item, []⟩
  | .duplicate id item =>
    match l.entry id with
    | .stored r => ⟨l, .done, [.returned pid id r]⟩
    | _ => ⟨l, .done, [.returned pid id (duplicateDelivery env id item)]⟩
  | .recorded id item =>
    match executeWorkItem C env item with
    | .error r => ⟨l, .storing id r, []⟩
    | .ok call => ⟨l, .running id item, [.invoked id call]⟩
  | .running id item => ⟨l, .storing id (invoke env item outcome), [.ended id]⟩
  | .storing id r => ⟨l.setTmp id (some r), .replacing id r, []⟩
  | .replacing id r =>
    match l.tmp id with
    | some written =>
      ⟨(l.setEntry id (.stored written)).setTmp id none, .returning id r, [.stored id written]⟩
    | none => ⟨l, .done, []⟩
  | .returning id r => ⟨l, .done, [.returned pid id r]⟩
  | .done => ⟨l, .done, []⟩

/-- The ledger and the deliveries under way. -/
structure LedgerWorld where
  ledger : Ledger
  procs : List DeliveryProc

/-- A delivery, its next step, a crash or a restart. -/
inductive LedgerAct where
  | deliver (commandId : String) (item : RunnerWorkItem)
  | advance (pid : Nat) (env : RunnerEnv) (outcome : HandlerOutcome)
  | crash (pid : Nat)
  | restart

def ledgerStep (w : LedgerWorld) : LedgerAct → LedgerWorld × List LedgerEvent
  | .deliver id item => (⟨w.ledger, w.procs ++ [.arrived id item]⟩, [])
  | .advance pid env outcome =>
    match w.procs[pid]? with
    | some p =>
      let out := deliveryStep C env outcome pid w.ledger p
      (⟨out.ledger, w.procs.set pid out.proc⟩, out.events)
    | none => (w, [])
  | .crash pid => (⟨w.ledger, w.procs.set pid .done⟩, [])
  | .restart => (⟨w.ledger, w.procs.map fun _ => .done⟩, [])

/-- A runner, with every delivery it ever got. -/
def runnerLedger : Machine LedgerWorld LedgerAct LedgerEvent :=
  ⟨⟨Ledger.empty, []⟩, ledgerStep C⟩

/-! ## Who holds a command -/

/-- How far the process that created the marker is. -/
inductive HolderPhase where
  | waiting
  | running
  | ended

def HolderPhase.At : HolderPhase → Stage → Prop
  | .waiting, stage => stage = .claimed
  | .running, stage => stage = .going
  | .ended, stage => stage ≠ .going

def DeliveryProc.hold : DeliveryProc → Option (String × HolderPhase)
  | .recorded id _ => some (id, .waiting)
  | .running id _ => some (id, .running)
  | .storing id _ => some (id, .ended)
  | .replacing id _ => some (id, .ended)
  | _ => none

/-- The command is held by the process with this number. -/
def LedgerWorld.Holds (w : LedgerWorld) (id : String) (pid : Nat) (phase : HolderPhase) : Prop :=
  ∃ p, w.procs[pid]? = some p ∧ p.hold = some (id, phase)

def LedgerWorld.Free (w : LedgerWorld) (id : String) : Prop := ∀ pid phase, ¬w.Holds id pid phase

/-- The files and the processes show the command at this stage of its ticket. A result that a
holder has written to the temporary file is the one it will return. -/
def CommandAt (w : LedgerWorld) (id : String) : Ticket → Prop
  | .unused => w.ledger.entry id = .absent ∧ w.Free id
  | .held n stage =>
    n = 0 ∧ w.ledger.entry id = .marker ∧
    (∀ pid phase, w.Holds id pid phase → phase.At stage) ∧
    (∀ pid pid' phase phase', w.Holds id pid phase → w.Holds id pid' phase' → pid = pid') ∧
    ∀ r, .replacing id r ∈ w.procs → w.ledger.tmp id = some r
  | .ended n _ => n = 0 ∧ (∃ r, w.ledger.entry id = .stored r) ∧ w.Free id
  | .spent => False

/-- What an event says about the ticket of a command. -/
def LedgerEvent.mark (id : String) : LedgerEvent → Option Mark
  | .invoked id' _ => if id' = id then some (.start 0) else none
  | .ended id' => if id' = id then some (.stop 0) else none
  | .stored id' _ => if id' = id then some (.result true) else none
  | .returned .. => none

def commandMarks (id : String) (es : List LedgerEvent) : List Mark := es.filterMap (·.mark id)

theorem commandMarks_append (id : String) (xs ys : List LedgerEvent) :
    commandMarks id (xs ++ ys) = commandMarks id xs ++ commandMarks id ys :=
  List.filterMap_append

/-! ## One step -/

section Frames
variable {w w' : LedgerWorld} {l' : Ledger} {id : String} {t : Ticket} {pid : Nat}
  {p p' : DeliveryProc}

/-- A command whose file and holder stay as they are. Processes may be gone. -/
theorem CommandAt.frame (h : CommandAt w id t) (hentry : w'.ledger.entry id = w.ledger.entry id)
    (htmp : w'.ledger.tmp id = w.ledger.tmp id)
    (hhold : ∀ pid phase, w'.Holds id pid phase → w.Holds id pid phase)
    (hwrite : ∀ r, .replacing id r ∈ w'.procs → .replacing id r ∈ w.procs) :
    CommandAt w' id t := by
  have hfree : w.Free id → w'.Free id := fun hf pid phase hh => hf pid phase (hhold pid phase hh)
  cases t with
  | unused => exact ⟨hentry.trans h.1, hfree h.2⟩
  | held n stage =>
    obtain ⟨hn, hmarker, hphase, hunique, hwritten⟩ := h
    refine ⟨hn, hentry.trans hmarker, ?_, ?_, ?_⟩
    · exact fun pid phase hh => hphase pid phase (hhold pid phase hh)
    · exact fun a b x y ha hb => hunique a b x y (hhold a x ha) (hhold b y hb)
    · intro r hr
      rw [htmp]
      exact hwritten r (hwrite r hr)
  | ended n ok =>
    obtain ⟨hn, ⟨r, hr⟩, hf⟩ := h
    exact ⟨hn, ⟨r, hentry.trans hr⟩, hfree hf⟩
  | spent => exact h

variable {phase : HolderPhase}

theorem ledger_holds_set (hp : w.procs[pid]? = some p) {pid' : Nat} :
    LedgerWorld.Holds ⟨l', w.procs.set pid p'⟩ id pid' phase ↔
      (pid' = pid ∧ p'.hold = some (id, phase)) ∨ (pid' ≠ pid ∧ w.Holds id pid' phase) := by
  have hlt : pid < w.procs.length := (List.getElem?_eq_some_iff.mp hp).1
  unfold LedgerWorld.Holds
  by_cases hid : pid' = pid
  · subst hid
    simp [hlt]
  · simp [hid, Ne.symm hid]

theorem replacing_hold {r : RunnerResult} (h : .replacing id r ∈ w.procs) :
    ∃ pid, w.Holds id pid .ended := by
  obtain ⟨pid, hpid⟩ := List.mem_iff_getElem?.mp h
  exact ⟨pid, .replacing id r, hpid, rfl⟩

/-- A step that neither takes nor holds a command leaves its ticket. -/
theorem CommandAt.idle (h : CommandAt w id t) (hp : w.procs[pid]? = some p)
    (hentry : l'.entry id = w.ledger.entry id) (htmp : l'.tmp id = w.ledger.tmp id)
    (hhold : ∀ phase, p'.hold ≠ some (id, phase)) : CommandAt ⟨l', w.procs.set pid p'⟩ id t := by
  refine h.frame hentry htmp ?_ ?_
  · intro pid' phase hh
    rcases (ledger_holds_set hp).mp hh with ⟨-, hnew⟩ | ⟨-, hold⟩
    · exact absurd hnew (hhold phase)
    · exact hold
  · intro r hr
    rcases List.mem_or_eq_of_mem_set hr with hold | heq
    · exact hold
    · exact absurd (congrArg DeliveryProc.hold heq.symm) (hhold .ended)

section
variable {n : Nat} {stage : Stage} (h : CommandAt w id (.held n stage))
    (hp : w.procs[pid]? = some p) (hhold : p.hold = some (id, phase))
include h hp hhold

theorem held_only {pid' : Nat} {phase' : HolderPhase}
    (hh : LedgerWorld.Holds ⟨l', w.procs.set pid p'⟩ id pid' phase') :
    pid' = pid ∧ p'.hold = some (id, phase') := by
  rcases (ledger_holds_set hp).mp hh with hnew | ⟨hne, hold⟩
  · exact hnew
  · exact absurd (h.2.2.2.1 pid' pid phase' phase hold ⟨p, hp, hhold⟩) hne

theorem CommandAt.moved {stage' : Stage} (hentry : l'.entry id = w.ledger.entry id)
    (hphase : ∀ phase', p'.hold = some (id, phase') → phase'.At stage')
    (hwrite : ∀ r, p' = .replacing id r → l'.tmp id = some r) :
    CommandAt ⟨l', w.procs.set pid p'⟩ id (.held n stage') := by
  refine ⟨h.1, hentry.trans h.2.1, ?_, ?_, ?_⟩
  · intro pid' phase' hh
    exact hphase phase' (held_only h hp hhold hh).2
  · intro a b x y ha hb
    rw [(held_only h hp hhold ha).1, (held_only h hp hhold hb).1]
  · intro r hr
    obtain ⟨pid', hpid'⟩ := List.mem_iff_getElem?.mp hr
    have hh : LedgerWorld.Holds ⟨l', w.procs.set pid p'⟩ id pid' .ended := ⟨_, hpid', rfl⟩
    obtain ⟨rfl, -⟩ := held_only h hp hhold hh
    have hlt : pid' < w.procs.length := (List.getElem?_eq_some_iff.mp hp).1
    change (w.procs.set pid' p')[pid']? = some _ at hpid'
    rw [List.getElem?_set_self hlt] at hpid'
    exact hwrite r (Option.some.inj hpid')

end

theorem CommandAt.of_hold (h : CommandAt w id t) (hp : w.procs[pid]? = some p)
    (hhold : p.hold = some (id, phase)) : ∃ stage, t = .held 0 stage ∧ phase.At stage := by
  have hh : w.Holds id pid phase := ⟨p, hp, hhold⟩
  cases t with
  | unused => exact absurd hh (h.2 pid phase)
  | held n stage =>
    obtain ⟨rfl, -, hphase, -⟩ := h
    exact ⟨stage, rfl, hphase pid phase hh⟩
  | ended n ok => exact absurd hh (h.2.2 pid phase)
  | spent => exact h.elim

end Frames

section Steps
variable {C : Crypto} {w : LedgerWorld} {id : String} {t : Ticket} {pid : Nat} {env : RunnerEnv}
  {outcome : HandlerOutcome}

/-- What a step does to the ticket of a command. -/
def TicketMove (w' : LedgerWorld) (es : List LedgerEvent) (id : String) (t : Ticket) : Prop :=
  ∃ t', Ticket.Step t (commandMarks id es) t' ∧ CommandAt w' id t'

/-- A step without a mark that leaves the stage. -/
theorem TicketMove.rest {w' : LedgerWorld} {es : List LedgerEvent} (hmarks : commandMarks id es = [])
    (h : CommandAt w' id t) : TicketMove w' es id t :=
  ⟨t, hmarks ▸ .idle t, h⟩

variable {id₀ : String}

section
variable (h : CommandAt w id t)
include h

theorem arrived_ticket {item : RunnerWorkItem} (hp : w.procs[pid]? = some (.arrived id₀ item)) :
    TicketMove
      ⟨(deliveryStep C env outcome pid w.ledger (.arrived id₀ item)).ledger,
        w.procs.set pid (deliveryStep C env outcome pid w.ledger (.arrived id₀ item)).proc⟩
      (deliveryStep C env outcome pid w.ledger (.arrived id₀ item)).events id t := by
  unfold deliveryStep
  simp only
  cases hentry : w.ledger.entry id₀ with
  | absent =>
    by_cases hid : id = id₀
    · subst hid
      -- without an entry the id has not been claimed yet
      have hunused : t = .unused := by
        cases t with
        | unused => rfl
        | held n stage =>
          have hmarker := h.2.1
          rw [hentry] at hmarker
          cases hmarker
        | ended n ok =>
          obtain ⟨-, ⟨r, hr⟩, -⟩ := h
          rw [hentry] at hr
          cases hr
        | spent => exact h.elim
      subst hunused
      -- the marker is written and held in one step, by this delivery alone
      have honly : ∀ pid' phase, LedgerWorld.Holds ⟨w.ledger.setEntry id .marker,
          w.procs.set pid (.recorded id item)⟩ id pid' phase → pid' = pid ∧ phase = .waiting := by
        intro pid' phase hh
        rcases (ledger_holds_set hp).mp hh with ⟨hpid, hnew⟩ | ⟨-, hold⟩
        · cases hnew
          exact ⟨hpid, rfl⟩
        · exact absurd hold (h.2 pid' phase)
      refine ⟨.held 0 .claimed, .claim, rfl, Ledger.setEntry_self _ _ _, ?_, ?_, ?_⟩
      · intro pid' phase hh
        rw [(honly pid' phase hh).2]
        rfl
      · intro a b x y ha hb
        rw [(honly a x ha).1, (honly b y hb).1]
      · intro r hr
        obtain ⟨pid', hh⟩ := replacing_hold hr
        have hphase := (honly pid' .ended hh).2
        cases hphase
    · refine .rest rfl (h.idle hp (Ledger.setEntry_ne _ _ hid) rfl ?_)
      intro phase heq
      cases heq
      exact hid rfl
  | marker | stored r => exact .rest rfl (h.idle hp rfl rfl fun phase heq => by cases heq)

theorem recorded_ticket {item : RunnerWorkItem} (hp : w.procs[pid]? = some (.recorded id₀ item)) :
    TicketMove
      ⟨(deliveryStep C env outcome pid w.ledger (.recorded id₀ item)).ledger,
        w.procs.set pid (deliveryStep C env outcome pid w.ledger (.recorded id₀ item)).proc⟩
      (deliveryStep C env outcome pid w.ledger (.recorded id₀ item)).events id t := by
  unfold deliveryStep
  simp only
  by_cases hid : id₀ = id
  · subst hid
    obtain ⟨stage, rfl, hat⟩ := h.of_hold hp rfl
    obtain rfl : stage = .claimed := hat
    cases executeWorkItem C env item with
    | error r =>
      refine .rest rfl (h.moved hp rfl rfl ?_ ?_)
      · intro phase heq
        cases heq
        exact fun hgoing => by cases hgoing
      · intro r' heq
        cases heq
    | ok call =>
      refine ⟨.held 0 .going, ?_, h.moved hp rfl rfl ?_ ?_⟩
      · simpa [commandMarks, LedgerEvent.mark] using Ticket.Step.start 0
      · intro phase heq
        cases heq
        rfl
      · intro r' heq
        cases heq
  · have hhold : ∀ (p : DeliveryProc) (phase phase' : HolderPhase),
        p.hold = some (id₀, phase) → p.hold ≠ some (id, phase') := by
      intro p phase phase' hp hp'
      rw [hp] at hp'
      cases hp'
      exact hid rfl
    cases executeWorkItem C env item with
    | error r => exact .rest rfl (h.idle hp rfl rfl fun phase => hhold _ .ended phase rfl)
    | ok call =>
      refine .rest ?_ (h.idle hp rfl rfl fun phase => hhold _ .running phase rfl)
      simp [commandMarks, LedgerEvent.mark, hid]

theorem replacing_ticket {r : RunnerResult} (hp : w.procs[pid]? = some (.replacing id₀ r)) :
    TicketMove
      ⟨(deliveryStep C env outcome pid w.ledger (.replacing id₀ r)).ledger,
        w.procs.set pid (deliveryStep C env outcome pid w.ledger (.replacing id₀ r)).proc⟩
      (deliveryStep C env outcome pid w.ledger (.replacing id₀ r)).events id t := by
  unfold deliveryStep
  simp only
  cases htmp : w.ledger.tmp id₀ with
  | none => exact .rest rfl (h.idle hp rfl rfl fun phase heq => by cases heq)
  | some written =>
    by_cases hid : id₀ = id
    · subst hid
      obtain ⟨stage, rfl, hat⟩ := h.of_hold hp rfl
      refine ⟨.ended 0 true, ?_, rfl, ⟨written, Ledger.setEntry_self _ _ _⟩, ?_⟩
      · simpa [commandMarks, LedgerEvent.mark] using Ticket.Step.finish 0 hat true
      · intro pid' phase hh
        have hnew := (held_only h hp rfl hh).2
        cases hnew
    · refine .rest ?_ (h.idle hp ?_ ?_ fun phase heq => by cases heq)
      · simp [commandMarks, LedgerEvent.mark, hid]
      · exact Ledger.setEntry_ne _ _ (Ne.symm hid)
      · exact Ledger.setTmp_ne _ _ (Ne.symm hid)

theorem holder_ticket {p p' : DeliveryProc} {l' : Ledger} {es : List LedgerEvent}
    {phase : HolderPhase} (hp : w.procs[pid]? = some p) (hhold : p.hold = some (id₀, phase))
    (hhold' : p'.hold = some (id₀, .ended)) (hentry : l'.entry = w.ledger.entry)
    (htmp : ∀ id', id' ≠ id₀ → l'.tmp id' = w.ledger.tmp id')
    (hwrite : ∀ r, p' = .replacing id₀ r → l'.tmp id₀ = some r)
    (hmarks : commandMarks id₀ es = [] ∧ phase = .ended ∨ commandMarks id₀ es = [.stop 0] ∧
      phase = .running)
    (hother : ∀ id', id' ≠ id₀ → commandMarks id' es = []) :
    TicketMove ⟨l', w.procs.set pid p'⟩ es id t := by
  by_cases hid : id = id₀
  · subst hid
    obtain ⟨stage, rfl, hat⟩ := h.of_hold hp hhold
    rcases hmarks with ⟨hnone, rfl⟩ | ⟨hstop, rfl⟩
    · refine .rest hnone (h.moved hp hhold (by rw [hentry]) ?_ hwrite)
      intro phase heq
      rw [hhold'] at heq
      cases heq
      exact hat
    · obtain rfl : stage = .going := hat
      refine ⟨.held 0 .stopped, hstop ▸ .stop 0, h.moved hp hhold (by rw [hentry]) ?_ hwrite⟩
      intro phase heq
      rw [hhold'] at heq
      cases heq
      exact fun hgoing => by cases hgoing
  · refine .rest (hother id hid) (h.idle hp (by rw [hentry]) (htmp id hid) ?_)
    intro phase heq
    rw [hhold'] at heq
    cases heq
    exact hid rfl

theorem deliveryStep_ticket {p : DeliveryProc} (hp : w.procs[pid]? = some p) :
    TicketMove ⟨(deliveryStep C env outcome pid w.ledger p).ledger,
        w.procs.set pid (deliveryStep C env outcome pid w.ledger p).proc⟩
      (deliveryStep C env outcome pid w.ledger p).events id t := by
  cases p with
  | arrived id₀ item => exact arrived_ticket h hp
  | duplicate id₀ item =>
    unfold deliveryStep
    simp only
    cases w.ledger.entry id₀ with
    | absent => exact .rest rfl (h.idle hp rfl rfl fun phase heq => by cases heq)
    | marker => exact .rest rfl (h.idle hp rfl rfl fun phase heq => by cases heq)
    | stored r => exact .rest rfl (h.idle hp rfl rfl fun phase heq => by cases heq)
  | recorded id₀ item => exact recorded_ticket h hp
  | running id₀ item =>
    refine holder_ticket h hp rfl rfl rfl (fun _ _ => rfl) (fun r heq => by cases heq) ?_ ?_
    · exact .inr ⟨by simp [deliveryStep, commandMarks, LedgerEvent.mark], rfl⟩
    · intro id' hid
      simp [deliveryStep, commandMarks, LedgerEvent.mark, Ne.symm hid]
  | storing id₀ r =>
    refine holder_ticket h hp rfl rfl rfl (fun id' hid => Ledger.setTmp_ne _ _ hid) ?_
      (.inl ⟨rfl, rfl⟩) (fun _ _ => rfl)
    intro r' heq
    cases heq
    exact Ledger.setTmp_self _ _ _
  | replacing id₀ r => exact replacing_ticket h hp
  | returning id₀ r | done => exact .rest rfl (h.idle hp rfl rfl fun phase heq => by cases heq)

end

/-- Every action is a step of every command's ticket. -/
theorem ledgerStep_ticket (a : LedgerAct) (h : CommandAt w id t) :
    TicketMove (ledgerStep C w a).1 (ledgerStep C w a).2 id t := by
  cases a with
  | deliver id₀ item =>
    have hidle : (DeliveryProc.arrived id₀ item).hold = none := rfl
    refine .rest rfl (h.frame rfl rfl ?_ ?_)
    · rintro pid phase ⟨p, hp, hhold⟩
      rcases getElem?_snoc hp with hold | ⟨-, rfl⟩
      · exact ⟨p, hold, hhold⟩
      · rw [hidle] at hhold
        cases hhold
    · intro r hr
      rcases List.mem_append.mp hr with hold | hnew
      · exact hold
      · cases List.mem_singleton.mp hnew
  | advance pid env outcome =>
    unfold ledgerStep
    simp only
    cases hp : w.procs[pid]? with
    | none => exact .rest rfl h
    | some p => exact deliveryStep_ticket h hp
  | crash pid =>
    unfold ledgerStep
    simp only
    cases hp : w.procs[pid]? with
    | none =>
      rw [List.set_eq_of_length_le (List.getElem?_eq_none_iff.mp hp)]
      exact .rest rfl h
    | some p => exact .rest rfl (h.idle hp rfl rfl fun phase heq => by cases heq)
  | restart =>
    refine .rest rfl (h.frame rfl rfl ?_ ?_)
    · rintro pid phase ⟨p, hp, hhold⟩
      -- after a restart no process holds anything
      change (w.procs.map fun _ => DeliveryProc.done)[pid]? = some p at hp
      obtain ⟨q, -, rfl⟩ := List.mem_map.mp (List.mem_of_getElem? hp)
      cases hhold
    · intro r hr
      change _ ∈ w.procs.map fun _ => DeliveryProc.done at hr
      obtain ⟨q, -, heq⟩ := List.mem_map.mp hr
      cases heq

/-- A stored result stays. -/
theorem ledgerStep_stored {r : RunnerResult} (a : LedgerAct) (hfree : w.Free id)
    (h : w.ledger.entry id = .stored r) : (ledgerStep C w a).1.ledger.entry id = .stored r := by
  cases a with
  | deliver id₀ item => exact h
  | crash pid => exact h
  | restart => exact h
  | advance pid env outcome =>
    unfold ledgerStep
    simp only
    cases hp : w.procs[pid]? with
    | none => exact h
    | some p =>
      cases p with
      | arrived id₀ item =>
        simp only [deliveryStep]
        cases hentry : w.ledger.entry id₀ with
        | absent =>
          have hne : id ≠ id₀ := by
            rintro rfl
            rw [h] at hentry
            cases hentry
          exact (Ledger.setEntry_ne _ _ hne).trans h
        | marker => exact h
        | stored r' => exact h
      | duplicate id₀ item =>
        simp only [deliveryStep]
        split <;> exact h
      | recorded id₀ item =>
        simp only [deliveryStep]
        split <;> exact h
      | running id₀ item => exact h
      | storing id₀ r' => exact h
      | replacing id₀ r' =>
        -- only a holder writes the file
        have hne : id ≠ id₀ := by
          rintro rfl
          exact hfree pid .ended ⟨_, hp, rfl⟩
        simp only [deliveryStep]
        split
        · exact (Ledger.setEntry_ne _ _ hne).trans h
        · exact h
      | returning id₀ r' => exact h
      | done => exact h

/-- What a delivery in this state can show by its next step. -/
inductive Shows (C : Crypto) (env : RunnerEnv) (pid : Nat) (l : Ledger) :
    DeliveryProc → LedgerEvent → Prop
  | invoked {id : String} {item : RunnerWorkItem} {call : Invocation}
      (h : executeWorkItem C env item = .ok call) :
      Shows C env pid l (.recorded id item) (.invoked id call)
  | ended {id : String} {item : RunnerWorkItem} : Shows C env pid l (.running id item) (.ended id)
  | stored {id : String} {r written : RunnerResult} (h : l.tmp id = some written) :
      Shows C env pid l (.replacing id r) (.stored id written)
  | returned {p : DeliveryProc} {id : String} {r : RunnerResult} : Shows C env pid l p (.returned pid id r)

theorem deliveryStep_shows {l : Ledger} {p : DeliveryProc} {e : LedgerEvent}
    (h : e ∈ (deliveryStep C env outcome pid l p).events) : Shows C env pid l p e := by
  cases p <;> rw [deliveryStep] at h
  case arrived id item => split at h <;> cases h
  case duplicate id item => split at h <;> (cases List.mem_singleton.mp h; exact .returned)
  case recorded id item =>
    split at h
    · cases h
    · cases List.mem_singleton.mp h
      exact .invoked ‹_›
  case running id item => cases List.mem_singleton.mp h; exact .ended
  case replacing id r =>
    split at h
    · cases List.mem_singleton.mp h
      exact .stored ‹_›
    · cases h
  case returning id r => cases List.mem_singleton.mp h; exact .returned
  all_goals cases h

theorem ledgerStep_event {a : LedgerAct} {e : LedgerEvent} (h : e ∈ (ledgerStep C w a).2) :
    ∃ pid env outcome p, a = .advance pid env outcome ∧ w.procs[pid]? = some p ∧
      e ∈ (deliveryStep C env outcome pid w.ledger p).events := by
  cases a with
  | deliver | crash | restart => cases h
  | advance pid env outcome =>
    simp only [ledgerStep] at h
    split at h
    · exact ⟨pid, env, outcome, _, rfl, ‹_›, h⟩
    · cases h

theorem ledgerStep_reports {r : RunnerResult} {a : LedgerAct}
    (h : .stored id r ∈ (ledgerStep C w a).2) :
    (ledgerStep C w a).1.ledger.entry id = .stored r := by
  obtain ⟨pid, env, outcome, p, rfl, hp, he⟩ := ledgerStep_event h
  cases deliveryStep_shows he with
  | stored htmp => simp [ledgerStep, deliveryStep, hp, htmp, Ledger.setTmp]

end Steps

/-! ## Every run -/

/-- The invariant: every command's part of the history is a ticket history that ends where the
files show the command, and a result that was stored is in its file. -/
structure LedgerInv (c : Config LedgerWorld LedgerEvent) : Prop where
  tickets : ∀ id, ∃ t, Ticket.Run (commandMarks id c.events) t ∧ CommandAt c.state id t
  stored : ∀ id r, .stored id r ∈ c.events → c.state.ledger.entry id = .stored r
  pids : ∀ pid id r, .returned pid id r ∈ c.events → pid < c.state.procs.length

/-- Nobody holds a command whose result is stored. -/
theorem LedgerInv.free {c : Config LedgerWorld LedgerEvent} (h : LedgerInv c) {id : String}
    {r : RunnerResult} (hr : c.state.ledger.entry id = .stored r) : c.state.Free id := by
  obtain ⟨t, -, hat⟩ := h.tickets id
  cases t with
  | unused =>
    have habsent := hat.1
    rw [hr] at habsent
    cases habsent
  | held n stage =>
    have hmarker := hat.2.1
    rw [hr] at hmarker
    cases hmarker
  | ended n ok => exact hat.2.2
  | spent => exact hat.elim

theorem procs_length_le (C : Crypto) (w : LedgerWorld) (a : LedgerAct) :
    w.procs.length ≤ (ledgerStep C w a).1.procs.length := by
  cases a with
  | deliver id item | crash pid | restart => simp [ledgerStep]
  | advance pid env outcome =>
    unfold ledgerStep
    simp only
    cases w.procs[pid]? with
    | none => exact Nat.le_refl _
    | some p => simp

theorem ledgerStep_returned {C : Crypto} {w : LedgerWorld} {a : LedgerAct} {pid : Nat}
    {id : String} {r : RunnerResult} (h : .returned pid id r ∈ (ledgerStep C w a).2) :
    ∃ env outcome p, a = .advance pid env outcome ∧ w.procs[pid]? = some p ∧
      .returned pid id r ∈ (deliveryStep C env outcome pid w.ledger p).events := by
  obtain ⟨_, env, outcome, p, rfl, hp, he⟩ := ledgerStep_event h
  cases deliveryStep_shows he
  exact ⟨env, outcome, p, rfl, hp, he⟩

theorem ledgerInv_begin (C : Crypto) : LedgerInv (runnerLedger C).begin_ := by
  refine ⟨fun id => ⟨.unused, .nil, rfl, ?_⟩, fun _ _ h => (by cases h),
    fun _ _ _ h => (by cases h)⟩
  rintro pid phase ⟨p, hp, -⟩
  cases hp

theorem ledgerInv_next (C : Crypto) (c : Config LedgerWorld LedgerEvent) (a : LedgerAct)
    (h : LedgerInv c) : LedgerInv ((runnerLedger C).next c a) := by
  refine ⟨?_, ?_, ?_⟩
  · intro id
    obtain ⟨t, hrun, hat⟩ := h.tickets id
    obtain ⟨t', hstep, hat'⟩ := ledgerStep_ticket (C := C) a hat
    refine ⟨t', ?_, hat'⟩
    rw [Machine.next_events, commandMarks_append]
    exact hrun.snoc hstep
  · intro id r hr
    rcases List.mem_append.mp hr with hold | hnew
    · have hentry := h.stored id r hold
      exact ledgerStep_stored a (h.free hentry) hentry
    · exact ledgerStep_reports hnew
  · intro pid id r hr
    have hgrows := procs_length_le C c.state a
    rcases List.mem_append.mp hr with hold | hnew
    · exact Nat.lt_of_lt_of_le (h.pids pid id r hold) hgrows
    · obtain ⟨env, outcome, p, -, hp, -⟩ := ledgerStep_returned hnew
      exact Nat.lt_of_lt_of_le (List.getElem?_eq_some_iff.mp hp).1 hgrows

theorem ledgerInv_history (C : Crypto) (acts : List LedgerAct) :
    LedgerInv ((runnerLedger C).after acts) :=
  (runnerLedger C).run_induct (ledgerInv_next C) (ledgerInv_begin C) acts

/-! ## Deliveries after the result -/

/-- The act moves the delivery. -/
def LedgerAct.advances (pid : Nat) : LedgerAct → Bool
  | .advance pid' _ _ => pid' = pid
  | _ => false

/-- The act ends the delivery before it has returned. -/
def LedgerAct.stops (pid : Nat) : LedgerAct → Bool
  | .crash pid' => pid' = pid
  | .restart => true
  | _ => false

/-- A delivery that came after the result `r` of the command was stored: it has not got past the
read of the file, and it has returned nothing else. -/
structure Late (id : String) (r : RunnerResult) (pid : Nat)
    (c : Config LedgerWorld LedgerEvent) : Prop where
  inv : LedgerInv c
  entry : c.state.ledger.entry id = .stored r
  proc : ∃ p, c.state.procs[pid]? = some p ∧
    (p = .done ∨ ∃ item, p = .arrived id item ∨ p = .duplicate id item)
  returned : ∀ id' r', .returned pid id' r' ∈ c.events → id' = id ∧ r' = r

section LateDeliveries
variable {C : Crypto} {id : String} {r : RunnerResult} {pid : Nat}
  {c : Config LedgerWorld LedgerEvent}

section
variable (env : RunnerEnv) (outcome : HandlerOutcome) {l : Ledger} (h : l.entry id = .stored r)
    (item : RunnerWorkItem)
include env outcome h item

theorem late_arrived :
    deliveryStep C env outcome pid l (.arrived id item) = ⟨l, .duplicate id item, []⟩ := by
  simp only [deliveryStep, h]

theorem late_duplicate :
    deliveryStep C env outcome pid l (.duplicate id item) =
      ⟨l, .done, [.returned pid id r]⟩ := by
  simp only [deliveryStep, h]

end

/-- A late delivery goes on to the read, and from the read to the end. -/
theorem Late.step (h : Late id r pid c) (env : RunnerEnv) (outcome : HandlerOutcome)
    {p : DeliveryProc} (hp : c.state.procs[pid]? = some p) :
    (∃ item, (deliveryStep C env outcome pid c.state.ledger p).proc = .duplicate id item) ∨
      (deliveryStep C env outcome pid c.state.ledger p).proc = .done := by
  obtain ⟨q, hq, hcase⟩ := h.proc
  rw [hp] at hq
  cases hq
  rcases hcase with rfl | ⟨item, rfl | rfl⟩
  · exact .inr rfl
  · rw [late_arrived env outcome h.entry]
    exact .inl ⟨item, rfl⟩
  · rw [late_duplicate env outcome h.entry]
    exact .inr rfl

theorem Late.next (h : Late id r pid c) (a : LedgerAct) :
    Late id r pid ((runnerLedger C).next c a) := by
  refine ⟨ledgerInv_next C c a h.inv, ledgerStep_stored a (h.inv.free h.entry) h.entry, ?_, ?_⟩
  · obtain ⟨p, hp, hcase⟩ := h.proc
    have hlt : pid < c.state.procs.length := (List.getElem?_eq_some_iff.mp hp).1
    change ∃ p, (ledgerStep C c.state a).1.procs[pid]? = some p ∧ _
    cases a with
    | deliver id₀ item => exact ⟨p, (List.getElem?_append_left hlt).trans hp, hcase⟩
    | advance pid₀ env outcome =>
      unfold ledgerStep
      simp only
      cases hp₀ : c.state.procs[pid₀]? with
      | none => exact ⟨p, hp, hcase⟩
      | some p₀ =>
        by_cases hpid : pid₀ = pid
        · subst hpid
          refine ⟨_, List.getElem?_set_self hlt, ?_⟩
          -- the late delivery becomes a duplicate or is done, and never runs
          rcases h.step env outcome hp₀ with ⟨item, hdup⟩ | hdone
          · exact .inr ⟨item, .inr hdup⟩
          · exact .inl hdone
        · exact ⟨p, (List.getElem?_set_ne hpid).trans hp, hcase⟩
    | crash pid₀ =>
      by_cases hpid : pid₀ = pid
      · subst hpid
        exact ⟨.done, List.getElem?_set_self hlt, .inl rfl⟩
      · exact ⟨p, (List.getElem?_set_ne hpid).trans hp, hcase⟩
    | restart =>
      refine ⟨.done, ?_, .inl rfl⟩
      change (c.state.procs.map fun _ => DeliveryProc.done)[pid]? = some _
      rw [List.getElem?_map, hp]
      rfl
  · intro id' r' hmem
    rcases List.mem_append.mp hmem with hold | hnew
    · exact h.returned id' r' hold
    · obtain ⟨env, outcome, p, -, hp, hevent⟩ := ledgerStep_returned hnew
      obtain ⟨q, hq, hcase⟩ := h.proc
      rw [hp] at hq
      cases hq
      -- only a duplicate returns, and it returns the stored result
      rcases hcase with rfl | ⟨item, rfl | rfl⟩
      · cases hevent
      · rw [late_arrived env outcome h.entry] at hevent
        cases hevent
      · rw [late_duplicate env outcome h.entry] at hevent
        cases List.mem_singleton.mp hevent
        exact ⟨rfl, rfl⟩

theorem late_run (C : Crypto) (h : Late id r pid c) (acts : List LedgerAct) :
    Late id r pid ((runnerLedger C).run c acts) :=
  (runnerLedger C).run_induct (fun _ a hc => hc.next a) h acts

/-- How many steps a delivery is from its return. -/
def DeliveryProc.toGo : DeliveryProc → Nat
  | .arrived _ _ => 2
  | .duplicate _ _ => 1
  | _ => 0

/-- Nobody but the delivery itself moves it, unless it is stopped. -/
theorem procs_frame {w : LedgerWorld} {a : LedgerAct} {p : DeliveryProc}
    (hp : w.procs[pid]? = some p) (hadvance : a.advances pid = false)
    (hstop : a.stops pid = false) : (ledgerStep C w a).1.procs[pid]? = some p := by
  have hlt : pid < w.procs.length := (List.getElem?_eq_some_iff.mp hp).1
  cases a with
  | deliver id₀ item => exact (List.getElem?_append_left hlt).trans hp
  | advance pid₀ env outcome =>
    have hne : pid₀ ≠ pid := by simpa [LedgerAct.advances] using hadvance
    unfold ledgerStep
    simp only
    cases w.procs[pid₀]? with
    | none => exact hp
    | some p₀ => exact (List.getElem?_set_ne hne).trans hp
  | crash pid₀ =>
    have hne : pid₀ ≠ pid := by simpa [LedgerAct.stops] using hstop
    exact (List.getElem?_set_ne hne).trans hp
  | restart => cases hstop

/-- A late delivery that is not stopped returns the stored result within two steps of its own. -/
theorem late_returns (C : Crypto) (acts : List LedgerAct)
    (hstops : ∀ a ∈ acts, a.stops pid = false) : ∀ (c : Config LedgerWorld LedgerEvent)
      (p : DeliveryProc), Late id r pid c → c.state.procs[pid]? = some p →
      (.returned pid id r ∈ c.events ∨
        0 < p.toGo ∧ p.toGo ≤ acts.countP (·.advances pid)) →
      .returned pid id r ∈ ((runnerLedger C).run c acts).events := by
  induction acts with
  | nil =>
    intro c p _ _ hdue
    rcases hdue with hret | ⟨hpos, hle⟩
    · exact hret
    · simp at hle
      omega
  | cons a acts ih =>
    intro c p hlate hp hdue
    have hrest : ∀ b ∈ acts, b.stops pid = false := fun b hb =>
      hstops b (List.mem_cons_of_mem a hb)
    have hstop := hstops a List.mem_cons_self
    have hnext := hlate.next (C := C) a
    obtain ⟨q, hq, -⟩ := hnext.proc
    refine ih hrest _ q hnext hq ?_
    rcases hdue with hret | ⟨hpos, hle⟩
    · exact .inl (List.mem_append_left _ hret)
    · by_cases hadvance : a.advances pid = true
      · -- the delivery takes one of its two steps
        rw [List.countP_cons_of_pos hadvance] at hle
        cases a with
        | advance pid₀ env outcome =>
          obtain rfl : pid₀ = pid := by simpa [LedgerAct.advances] using hadvance
          have hlt : pid₀ < c.state.procs.length := (List.getElem?_eq_some_iff.mp hp).1
          obtain ⟨p', hp', hcase⟩ := hlate.proc
          rw [hp] at hp'
          cases hp'
          rcases hcase with rfl | ⟨item, rfl | rfl⟩
          · exact absurd hpos (by decide)
          · refine .inr ?_
            have hmoved : ((runnerLedger C).next c (.advance pid₀ env outcome)).state.procs[pid₀]? =
                some (.duplicate id item) := by
              change (ledgerStep C c.state (.advance pid₀ env outcome)).1.procs[pid₀]? = _
              simp only [ledgerStep, hp, late_arrived env outcome hlate.entry]
              exact List.getElem?_set_self hlt
            rw [hmoved] at hq
            cases hq
            exact ⟨Nat.one_pos, Nat.le_of_succ_le_succ hle⟩
          · refine .inl (List.mem_append_right _ ?_)
            change _ ∈ (ledgerStep C c.state (.advance pid₀ env outcome)).2
            simp only [ledgerStep, hp, late_duplicate env outcome hlate.entry]
            exact List.mem_cons_self
        | _ => cases hadvance
      · have hother : a.advances pid = false := by simpa using hadvance
        rw [List.countP_cons_of_neg hadvance] at hle
        have hsame := procs_frame (C := C) hp hother hstop
        change (ledgerStep C c.state a).1.procs[pid]? = some q at hq
        rw [hsame] at hq
        cases hq
        exact .inr ⟨hpos, hle⟩

end LateDeliveries

theorem countP_invokes (id : String) (es : List LedgerEvent) :
    es.countP (·.invokes id) = (commandMarks id es).count (.start 0) := by
  induction es with
  | nil => rfl
  | cons e es ih =>
    unfold commandMarks at ih ⊢
    rw [List.countP_cons, List.filterMap_cons, ih]
    cases e with
    | invoked id' call =>
      by_cases hid : id' = id
      · simp [LedgerEvent.invokes, LedgerEvent.mark, hid]
      · simp [LedgerEvent.invokes, LedgerEvent.mark, hid]
    | ended id' =>
      by_cases hid : id' = id
      · simp [LedgerEvent.invokes, LedgerEvent.mark, hid]
      · simp [LedgerEvent.invokes, LedgerEvent.mark, hid]
    | stored id' r =>
      by_cases hid : id' = id
      · simp [LedgerEvent.invokes, LedgerEvent.mark, hid]
      · simp [LedgerEvent.invokes, LedgerEvent.mark, hid]
    | returned pid id' r => simp [LedgerEvent.invokes, LedgerEvent.mark]

/-- **At most once.** In every run of deliveries, redeliveries and crashes: the handler of a
command is called at most once; a stored result stays in its file; and a delivery that comes
after the result was stored returns that result and nothing else, within two steps of its
own unless it is stopped. -/
theorem executed_at_most_once (C : Crypto) (acts : List LedgerAct) :
    (∀ id, ((runnerLedger C).after acts).events.countP (·.invokes id) ≤ 1) ∧
    (∀ id r, .stored id r ∈ ((runnerLedger C).after acts).events →
      ((runnerLedger C).after acts).state.ledger.entry id = .stored r) ∧
    ∀ before id item later r, acts = before ++ .deliver id item :: later →
      .stored id r ∈ ((runnerLedger C).after before).events →
      (∀ id' r', .returned ((runnerLedger C).after before).state.procs.length id' r' ∈
        ((runnerLedger C).after acts).events → id' = id ∧ r' = r) ∧
      ((∀ a ∈ later, a.stops ((runnerLedger C).after before).state.procs.length = false) →
        2 ≤ later.countP (·.advances ((runnerLedger C).after before).state.procs.length) →
        .returned ((runnerLedger C).after before).state.procs.length id r ∈
          ((runnerLedger C).after acts).events) := by
  refine ⟨?_, (ledgerInv_history C acts).stored, ?_⟩
  · intro id
    obtain ⟨t, hrun, -⟩ := (ledgerInv_history C acts).tickets id
    rw [countP_invokes]
    exact hrun.start_once 0
  · rintro before id item later r rfl hstored
    have hinv := ledgerInv_history C before
    have hproc : ((runnerLedger C).next ((runnerLedger C).after before)
        (.deliver id item)).state.procs[((runnerLedger C).after before).state.procs.length]? =
        some (.arrived id item) := List.getElem?_concat_length
    have hlate : Late id r ((runnerLedger C).after before).state.procs.length
        ((runnerLedger C).next ((runnerLedger C).after before) (.deliver id item)) := by
      refine ⟨ledgerInv_next C _ _ hinv, hinv.stored id r hstored,
        ⟨_, hproc, .inr ⟨item, .inl rfl⟩⟩, ?_⟩
      intro id' r' hmem
      rcases List.mem_append.mp hmem with hold | hnew
      · exact absurd (hinv.pids _ id' r' hold) (Nat.lt_irrefl _)
      · cases hnew
    have hsplit : (runnerLedger C).after (before ++ .deliver id item :: later) =
        (runnerLedger C).run ((runnerLedger C).next ((runnerLedger C).after before)
          (.deliver id item)) later := (runnerLedger C).run_append _ before _
    rw [hsplit]
    refine ⟨(late_run C hlate later).returned, ?_⟩
    intro hstops hsteps
    exact late_returns C later hstops _ _ hlate hproc (.inr ⟨Nat.two_pos, hsteps⟩)

end Meho.Runner
