import Meho.Runner.Ledger

/- The runner calls handlers only for what the centre signed (runner/executor.py).

Whatever is delivered to the runner, and wherever it crashes: a handler is called for a
delivered item, and for a remote write only if the centre signed an item of the same operation,
params and target id, before its deadline (`runs_only_signed`). -/
namespace Meho.Runner
open Meho.Lib

section Authorised
variable (C : Crypto) (signed : List RunnerWorkItem)

/-- Under the runner's key a signature verifies for the texts of the signed items only. -/
def VerifiesOnly (env : RunnerEnv) : Prop :=
  ∀ verifyKey, loadVerifyKey C env.verifyKey = .ok verifyKey →
    ∀ signature text, C.verify verifyKey signature text = true → ∃ item ∈ signed, ∃ expiresAt,
      item.expiresAt = some expiresAt ∧ text = remoteWriteSigningBytes item.opId
        (paramsDigest C item.params) item.targetScope expiresAt

/-- The item may be run: it is safe, or a remote write the runner allows, with a credential of
its own, that asks for what a signed item asks for, before the deadline of both. -/
def Authorised (env : RunnerEnv) (item : RunnerWorkItem) : Prop :=
  classifySatelliteTier env.isSafeWrite item.safetyLevel item.opId = .safe ∨
    classifySatelliteTier env.isSafeWrite item.safetyLevel item.opId = .remoteWrite ∧
      evaluateRemoteWriteGate item.opId (parseRunnerAllowlist env.writeAllowlist)
        item.targetScope none = .ok () ∧
      isWrappedCredentialRef (item.targetDescriptor.bind (·.secretRef)) = true ∧
      ∃ original ∈ signed, ¬Differs original item ∧ ∃ expiresAt, item.expiresAt = some expiresAt ∧
        original.expiresAt.map canonicalExpiresAt = some (canonicalExpiresAt expiresAt) ∧
        env.now < expiresAt

variable {C signed} {env : RunnerEnv} {item : RunnerWorkItem}

theorem executeWorkItem_ok {call : Invocation} (h : executeWorkItem C env item = .ok call) :
    screenItem C env item = none := by
  unfold executeWorkItem at h
  split at h
  · cases h
  · rename_i hscreen
    cases hpackage : packageSetRefusal env item with
    | some reason =>
      rw [hpackage] at hscreen
      cases hscreen
    | none => rwa [hpackage] at hscreen

theorem screenRemoteWrite_none (h : screenRemoteWrite C env item = none) :
    verifyRemoteWriteSignature C env item = none ∧
      evaluateRemoteWriteGate item.opId (parseRunnerAllowlist env.writeAllowlist)
        item.targetScope none = .ok () ∧
      isWrappedCredentialRef (item.targetDescriptor.bind (·.secretRef)) = true := by
  unfold screenRemoteWrite screenRemoteWriteCredential at h
  split at h
  · cases h
  · rename_i hverify
    split at h
    · cases h
    · rename_i hgate
      split at h
      · rename_i hwrapped
        exact ⟨hverify, hgate, hwrapped⟩
      · cases h

theorem authorised_of_ok {call : Invocation} (hsha : Function.Injective C.sha256)
    (honly : VerifiesOnly C signed env)
    (hfloats : ∀ item ∈ signed, wellFormedFields item.params = true)
    (hitem : wellFormedFields item.params = true) (h : executeWorkItem C env item = .ok call) :
    Authorised signed env item := by
  have hscreen := executeWorkItem_ok h
  unfold screenItem at hscreen
  cases htier : classifySatelliteTier env.isSafeWrite item.safetyLevel item.opId with
  | safe => exact .inl htier
  | excluded =>
    rw [htier] at hscreen
    cases hscreen
  | remoteWrite =>
    have hremote : screenRemoteWrite C env item = none := by
      cases hremote : screenRemoteWrite C env item with
      | some reason =>
        rw [htier, hremote] at hscreen
        cases hscreen
      | none => rfl
    obtain ⟨hverify, hgate, hwrapped⟩ := screenRemoteWrite_none hremote
    obtain ⟨signature, expiresAt, key, -, hexpires, hkey, hverified, hfresh⟩ :=
      verifyRemoteWriteSignature_none hverify
    obtain ⟨original, horiginal, deadline, hdeadline, htext⟩ := honly key hkey _ _ hverified
    obtain ⟨hop, hdigest, hscope, hcanonical⟩ := remoteWriteSigningBytes_inj htext
    refine .inr ⟨htier, hgate, hwrapped, original, horiginal, ?_, expiresAt, hexpires, ?_, hfresh⟩
    · rintro (hdiff | hdiff | hdiff)
      · exact hdiff hop
      · exact hdiff (canonicalParams_inj hitem (hfloats original horiginal) (hsha hdigest))
      · exact hdiff (targetScope_inj hscope)
    · rw [hdeadline, hcanonical]
      rfl

def DeliveryProc.work : DeliveryProc → Option (String × RunnerWorkItem)
  | .arrived id item | .duplicate id item | .recorded id item | .running id item => some (id, item)
  | _ => none

theorem deliveryStep_work {l : Ledger} {p : DeliveryProc} {pid : Nat} {outcome : HandlerOutcome}
    {x : String × RunnerWorkItem} (h : (deliveryStep C env outcome pid l p).proc.work = some x) :
    p.work = some x := by
  cases p <;> simp only [deliveryStep] at h <;> (try split at h) <;>
    first | exact h | cases h

def Calls (C : Crypto) (acts : List LedgerAct) (id : String) (call : Invocation) : Prop :=
  ∃ item env pid outcome, .deliver id item ∈ acts ∧ .advance pid env outcome ∈ acts ∧
    executeWorkItem C env item = .ok call

theorem calls_of_delivered (acts : List LedgerAct) :
    (∀ p ∈ ((runnerLedger C).after acts).state.procs, ∀ id item, p.work = some (id, item) →
      .deliver id item ∈ acts) ∧
      ∀ id call, .invoked id call ∈ ((runnerLedger C).after acts).events → Calls C acts id call := by
  refine (runnerLedger C).run_induct_of_forall (c := (runnerLedger C).begin_) (P := (· ∈ acts))
    (I := fun c => (∀ p ∈ c.state.procs, ∀ id item, p.work = some (id, item) →
      .deliver id item ∈ acts) ∧ ∀ id call, .invoked id call ∈ c.events → Calls C acts id call)
    ?_ ⟨fun _ h => (by cases h), fun _ _ h => (by cases h)⟩ fun _ ha => ha
  rintro c a ⟨hprocs, hevents⟩ ha
  constructor
  · intro p hp id item hwork
    cases a with
    | deliver =>
      obtain hp | hp := List.mem_append.mp hp
      · exact hprocs p hp id item hwork
      · obtain rfl := List.mem_singleton.mp hp
        cases hwork
        exact ha
    | advance pid env outcome =>
      simp only [Machine.next, runnerLedger, ledgerStep] at hp
      split at hp
      · rename_i q hq
        obtain hp | rfl := List.mem_or_eq_of_mem_set hp
        · exact hprocs p hp id item hwork
        -- a step never changes the item its process works on
        · exact hprocs q (List.mem_of_getElem? hq) id item (deliveryStep_work hwork)
      · exact hprocs p hp id item hwork
    | crash =>
      obtain hp | rfl := List.mem_or_eq_of_mem_set hp
      · exact hprocs p hp id item hwork
      · cases hwork
    | restart =>
      obtain ⟨_, -, rfl⟩ := List.mem_map.mp hp
      cases hwork
  · intro id call h
    obtain h | h := List.mem_append.mp h
    · exact hevents id call h
    · obtain ⟨pid, env, outcome, p, rfl, hp, he⟩ := ledgerStep_event h
      cases deliveryStep_shows he with
      | invoked hcall =>
        exact ⟨_, env, pid, outcome, hprocs _ (List.mem_of_getElem? hp) _ _ rfl, ha, hcall⟩

end Authorised

/-- **Handlers are called only for what the centre signed.** Under a collision-free digest and
a key that verifies the signed items only, in every run of deliveries and crashes: a handler is
called for an item that was delivered under the command, and it is safe, or a remote write of
the operation, params and target of a signed item, before that item's deadline. -/
theorem runs_only_signed (C : Crypto) (signed : List RunnerWorkItem) (acts : List LedgerAct)
    (hsha : Function.Injective C.sha256)
    (honly : ∀ pid env outcome, .advance pid env outcome ∈ acts → VerifiesOnly C signed env)
    (hfloats : ∀ item ∈ signed, wellFormedFields item.params = true)
    (hitems : ∀ id item, .deliver id item ∈ acts → wellFormedFields item.params = true) :
    ∀ id call, .invoked id call ∈ ((runnerLedger C).after acts).events →
      ∃ item env pid outcome, .deliver id item ∈ acts ∧ .advance pid env outcome ∈ acts ∧
        executeWorkItem C env item = .ok call ∧ Authorised signed env item := by
  intro id call h
  obtain ⟨item, env, pid, outcome, hdeliver, hadvance, hcalled⟩ :=
    (calls_of_delivered acts).2 id call h
  exact ⟨item, env, pid, outcome, hdeliver, hadvance, hcalled,
    authorised_of_ok hsha (honly pid env outcome hadvance) hfloats (hitems id item hdeliver) hcalled⟩

/-- A key under which the text of one small item verifies, and nothing else. -/
def smallCrypto : Crypto :=
  { plainCrypto with
    verify := fun _ _ text => text = remoteWriteSigningBytes "net.write"
      (paramsDigest plainCrypto []) (smallItem "net.write" "a").targetScope 1 }

def smallActs : List LedgerAct :=
  [.deliver "1" (smallItem "net.write" "a"), .advance 0 smallEnv (.returned (.obj [])),
    .advance 0 smallEnv (.returned (.obj []))]

theorem runs_only_signed_small :
    ∃ call, .invoked "1" call ∈ ((runnerLedger smallCrypto).after smallActs).events ∧
      ∃ item env pid outcome, .deliver "1" item ∈ smallActs ∧ .advance pid env outcome ∈ smallActs ∧
        executeWorkItem smallCrypto env item = .ok call ∧
        Authorised [smallItem "net.write" "a"] env item := by
  have hcount : 0 < ((runnerLedger smallCrypto).after smallActs).events.countP (·.invokes "1") := by
    decide +kernel
  obtain ⟨e, he, hinvokes⟩ := List.countP_pos_iff.mp hcount
  cases e with
  | invoked id call =>
    obtain rfl : id = "1" := of_decide_eq_true hinvokes
    refine ⟨call, he, runs_only_signed smallCrypto _ smallActs plainCrypto_sha256 ?_ ?_ ?_ _ _ he⟩
    · intro _ env _ _ verifyKey _ signature text h
      exact ⟨_, List.mem_singleton_self _, 1, rfl, of_decide_eq_true h⟩
    · intro item hitem
      rw [List.mem_singleton.mp hitem]
      rfl
    · intro id item hitem
      obtain ⟨-, rfl⟩ : id = "1" ∧ item = smallItem "net.write" "a" := by
        simpa [smallActs] using hitem
      rfl
  | _ => cases hinvokes

end Meho.Runner
