import Meho.Approval.Lifecycle

/- The params an approved run takes from the row, once a run was claimed
(operations/approval_queue.py).

The claim replaces the secret-named values of the stored params by the marker.
A later run without params of its own reads the row again: params that hold the
marker count as none, so what it gets is the call that was approved, or nothing.
A caller's own text that reads like the marker counts as one too; such params are
refused although nothing was replaced (`marker_text_refuses_run`).

Correspondence: each function keeps its name. -/
namespace Meho.Approval
open Redaction (holdsHiddenParamValues)

/-- The scrub of these params replaces something. -/
def scrubReplaces (params : Params) : Bool :=
  (Redaction.scrubFields true [] (Redaction.isSecretNameValuePair [] params) params).2

/-- Stored params stay as they are, or something was replaced in them and they hold the marker. -/
theorem hideStoredParams_cases (params : Params) :
    ∃ kept, hideStoredParams (some params) = some kept ∧
      ((scrubReplaces params = true ∧ holdsHiddenParamValues (.obj kept) = true) ∨
        (scrubReplaces params = false ∧ kept = params)) := by
  unfold hideStoredParams paramsWithSecretFieldsHidden scrubReplaces
  simp only
  by_cases hfound :
      (Redaction.scrubFields true [] (Redaction.isSecretNameValuePair [] params) params).2 = true
  · rw [if_pos hfound]
    exact ⟨_, rfl, Or.inl ⟨hfound, Redaction.holdsHiddenFields_of_found _ params hfound⟩⟩
  · rw [if_neg hfound]
    exact ⟨params, rfl, Or.inr ⟨Bool.not_eq_true _ ▸ hfound, rfl⟩⟩

/-- **No run is made of hidden values.** After the run claim, stored params are used only as
they were approved. They count as hidden where the claim replaced something in them, and
 where they held the marker's text from the start. -/
theorem stored_call_after_claim (H : Hashing) (now : Time) (id : Nat) (s s' : Store)
    (r : ApprovalRequest) (params : Params) (hrow : s.requests[id]? = some r)
    (hparams : r.params = some params)
    (hhash : paramsHashMatches H params r.paramsHash = true)
    (hclaim : claimResume now id s = (true, s')) :
    ∃ r' kept, s'.requests[id]? = some r' ∧ r'.params = some kept ∧
      (∀ p, storedCall r' none = some p →
        p = params ∧ paramsHashMatches H p r'.paramsHash = true) ∧
      (holdsHiddenParamValues (.obj kept) = true ↔
        scrubReplaces params = true ∨ holdsHiddenParamValues (.obj params) = true) := by
  obtain ⟨r₀, hr₀, -, -, rfl⟩ := claimResume_true hclaim
  rw [hrow] at hr₀
  cases hr₀
  obtain ⟨kept, hkept, hcases⟩ := hideStoredParams_cases params
  have hrow' : (s.updateRequest id (·.claimedAt now)).requests[id]? = some (r.claimedAt now) := by
    show (s.requests.modify id _)[id]? = _
    rw [List.getElem?_modify_eq, hrow]
    rfl
  have hstored : (r.claimedAt now).params = some kept := by
    show hideStoredParams r.params = _
    rw [hparams, hkept]
  refine ⟨r.claimedAt now, kept, hrow', hstored, ?_, ?_⟩
  · intro p hp
    unfold storedCall at hp
    rw [hstored] at hp
    simp only at hp
    by_cases hhidden : holdsHiddenParamValues (.obj kept) = true
    · rw [if_pos hhidden] at hp
      cases hp
    · rw [if_neg hhidden] at hp
      cases hp
      -- nothing was replaced: these are the params of the approved call
      rcases hcases with ⟨-, hmark⟩ | ⟨-, rfl⟩
      · exact absurd hmark hhidden
      · exact ⟨rfl, hhash⟩
  · rcases hcases with ⟨hfound, hmark⟩ | ⟨hfound, rfl⟩
    · simp [hfound, hmark]
    · simp [hfound]

/-! ## A parameter that reads like the marker -/

/-- A note that quotes the marker. -/
def quotingParams : Params := [("note", .str Redaction.redactedParam)]

/-- An approved request for these params, its run not claimed yet. -/
def approvedRequest (params : Params) (hash : String) : ApprovalRequest where
  tenantId := 1
  principalSub := "agent:runner"
  principalName := none
  opId := "k8s.deployment.annotate"
  connectorId := "k8s-1.x"
  targetId := none
  paramsHash := hash
  previewHash := none
  params := some params
  executionHandle := none
  proposedEffect := []
  status := .approved
  reviewedBy := some "alice"
  reviewedByName := none
  decidedAt := some 5
  withdrawnAt := none
  withdrawReason := none
  createdAt := 1
  expiresAt := some 100
  workRef := none
  resumedAt := none
  resumeResult := none
  resumeParent := none
  idempotencyKey := none
  releaseId := none
  targetHash := none
  rerunCount := 0
  revealSecret := false

/-- Nothing is replaced in them, they count as hidden, and the stored call is none. -/
theorem marker_text_refuses_run :
    scrubReplaces quotingParams = false ∧
      hideStoredParams (some quotingParams) = some quotingParams ∧
      storedCall (approvedRequest quotingParams "h") none = none ∧
      ¬∀ params kept, hideStoredParams (some params) = some kept →
        (holdsHiddenParamValues (.obj kept) = true ↔ scrubReplaces params = true) := by
  have hclean : scrubReplaces quotingParams = false := by decide
  have hkept : hideStoredParams (some quotingParams) = some quotingParams := rfl
  refine ⟨hclean, hkept, rfl, ?_⟩
  intro h
  have hfound := (h quotingParams quotingParams hkept).mp (by decide)
  rw [hclean] at hfound
  cases hfound

/-- A digest that tells a replica count. -/
def sampleHashing : Hashing where
  params params := if (dictGet params "replicas").isSome then "h" else "g"
  olderParams _ := []
  target _ := "t"
  signIn text := text

def scaleParams : Params := [("replicas", .int 3)]

theorem stored_call_after_claim_scale :
    ∃ r' kept,
      ((⟨[approvedRequest scaleParams "h"], [], [], 0, []⟩ : Store).updateRequest 0
        (·.claimedAt 7)).requests[0]? = some r' ∧ r'.params = some kept ∧
      (∀ p, storedCall r' none = some p →
        p = scaleParams ∧ paramsHashMatches sampleHashing p r'.paramsHash = true) ∧
      (holdsHiddenParamValues (.obj kept) = true ↔
        scrubReplaces scaleParams = true ∨ holdsHiddenParamValues (.obj scaleParams) = true) :=
  stored_call_after_claim sampleHashing 7 0 ⟨[approvedRequest scaleParams "h"], [], [], 0, []⟩ _
    (approvedRequest scaleParams "h") scaleParams rfl rfl (by decide) rfl

end Meho.Approval
