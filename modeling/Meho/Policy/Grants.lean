import Meho.Policy.Permissions

/- Standing grants and read scopes of service principals
(operations/service_grants.py, operations/service_read_scopes.py,
operations/caller_address.py).

There are two tables of grants, the ordinary ones and the delete grants of a
sandbox, and one lookup for both (`findLiveGrant`): the row of the exact target
first, then the rows that select targets by product and name. The order of a
table stands for the order in which the database answers.

`consultAndRecordGrant` decides which table may clear a call. Its inversion
`consultAndRecordGrant_some` says everything a cleared call went through, and
`consultAndRecordGrant_deleteSign` that the ordinary table has no say about an
operation with a delete sign. What a use leaves on the audit log is
`GrantUse.payload`.

Correspondence: `_live_grant_scope_predicates` ↔ `liveGrantScope`, `_record_grant_use`
↔ `GrantUse.payload`, `_entry_matches` ↔ `ReadScopeEntry.matches`; what is not listed
keeps its name. -/
namespace Meho.Policy
open Meho.Dispatch
open Meho.Approval (Params)

/-! ## Calls and tables -/

/-- What the gate reads of a target. -/
structure DispatchTarget where
  id : Option Nat
  product : Option String
  name : Option String

/-- One row of `service_principal_grant` or of `sandbox_delete_grant`. -/
structure GrantRow where
  id : Nat
  tenantId : Nat
  principalSub : String
  opId : String
  connectorId : String
  targetId : Option Nat
  targetProduct : Option String
  targetNamePattern : Option String
  revokedAt : Option Time
  expiresAt : Option Time

/-- One entry of a read scope: one target, a selector, or the calls without a target. -/
inductive ReadScopeEntry where
  | target (id : Nat)
  | selector (product namePattern : Option String)
  | noTarget

/-- One row of `service_principal_read_scope`. -/
structure ReadScope where
  tenantId : Nat
  principalSub : String
  entries : List ReadScopeEntry

/-- What the gate finds when a call gets to it: the clock, the sandbox flag, the delete-name
patterns of the settings, the tables, and the connector's part of an effect with the preview
of the call. -/
structure PolicyContext where
  now : Time
  sandboxModeActive : Bool
  deleteShapedPatterns : List String
  upper : Char → Bool
  permissions : List AgentPermission
  grants : List GrantRow
  deleteGrants : List GrantRow
  readScopes : List ReadScope
  floors : RoleFloors
  classifyOp : String → String
  hooks : EffectHooks
  preview : PreviewAnswer

/-- A call as the gate gets it. `actorSub` is the hosted agent bound to the run. -/
structure PolicyCall where
  operator : Operator
  actorSub : Option String
  descriptor : EndpointDescriptor
  target : Option DispatchTarget
  connectorId : Option String
  previewHash : Option String
  params : Option Params
  decideOnly : Bool

/-- The id of the call's target. -/
def PolicyCall.targetId (c : PolicyCall) : Option Nat := c.target.bind (·.id)

/-- Why the call's operation carries a delete sign under the settings of now. -/
def PolicyContext.deleteReason (x : PolicyContext) (c : PolicyCall) : Option String :=
  deleteGrantReason x.upper x.deleteShapedPatterns c.descriptor

/-! ## Addresses the caller gives -/

/-- `CALLER_ADDRESS_MARKER`. -/
def callerAddressMarker : String := "x-meho-caller-address"

mutual
/-- The schema marks a parameter as an address, at any depth. -/
def hasCallerAddress : Json → Bool
  | .obj fields =>
    (dictGet fields callerAddressMarker matches some (.bool true)) ||
      hasCallerAddressFields fields
  | .arr items => hasCallerAddressItems items
  | _ => false

def hasCallerAddressFields : Dict → Bool
  | [] => false
  | (_, value) :: rest => hasCallerAddress value || hasCallerAddressFields rest

def hasCallerAddressItems : List Json → Bool
  | [] => false
  | item :: rest => hasCallerAddress item || hasCallerAddressItems rest
end

/-! ## The lookup -/

/-- The scope and the liveness every lookup asks for. -/
def liveGrantScope (operator : Operator) (opId connectorId : String) (cutoff : Time)
    (g : GrantRow) : Bool :=
  g.tenantId = operator.tenantId && g.principalSub = operator.sub && g.opId = opId &&
    g.connectorId = connectorId && g.revokedAt.isNone &&
    match g.expiresAt with
    | none => true
    | some expiresAt => decide (cutoff < expiresAt)

/-- The grant selects targets by product or name. -/
def GrantRow.isSelector (g : GrantRow) : Bool :=
  g.targetId.isNone && (g.targetProduct.isSome || g.targetNamePattern.isSome)

/-- The grant is for calls without a target. -/
def GrantRow.isTargetless (g : GrantRow) : Bool :=
  g.targetId.isNone && g.targetProduct.isNone && g.targetNamePattern.isNone

/-- Product equal, name matched; what the selector leaves open does not matter. -/
def selectorMatches (product namePattern targetProduct targetName : Option String) : Bool :=
  (product.isNone || product = targetProduct) &&
    match namePattern with
    | none => true
    | some pattern =>
      match targetName with
      | none => false
      | some name => fnmatchcase name pattern

def findLiveGrant (table : List GrantRow) (operator : Operator) (opId connectorId : String)
    (target : Option DispatchTarget) (cutoff : Time) : Option GrantRow :=
  let live := table.filter (liveGrantScope operator opId connectorId cutoff)
  match target.bind (·.id) with
  | none => live.find? (·.isTargetless)
  | some id =>
    -- a grant for the one target wins over a selector
    match live.find? (fun g => g.targetId = some id) with
    | some g => some g
    | none =>
      live.find? fun g => g.isSelector &&
        selectorMatches g.targetProduct g.targetNamePattern (target.bind (·.product))
          (target.bind (·.name))

/-- The grant names the call's target: itself, by selector, or as none. -/
def GrantRow.coversTarget (g : GrantRow) (target : Option DispatchTarget) : Bool :=
  match target.bind (·.id) with
  | none => g.isTargetless
  | some id =>
    g.targetId = some id || (g.isSelector &&
      selectorMatches g.targetProduct g.targetNamePattern (target.bind (·.product))
        (target.bind (·.name)))

variable {connectorId : String}

theorem findLiveGrant_some {table : List GrantRow} {operator : Operator} {opId : String}
    {target : Option DispatchTarget} {cutoff : Time} {g : GrantRow}
    (h : findLiveGrant table operator opId connectorId target cutoff = some g) :
    g ∈ table ∧ liveGrantScope operator opId connectorId cutoff g = true ∧
      g.coversTarget target = true := by
  have hlive : ∀ {p : GrantRow → Bool} {g : GrantRow},
      (table.filter (liveGrantScope operator opId connectorId cutoff)).find? p = some g →
      g ∈ table ∧ liveGrantScope operator opId connectorId cutoff g = true ∧ p g = true := by
    intro p g hfind
    obtain ⟨hmem, hscope⟩ := List.mem_filter.mp (List.mem_of_find?_eq_some hfind)
    exact ⟨hmem, hscope, List.find?_some hfind⟩
  unfold findLiveGrant at h
  simp only at h
  unfold GrantRow.coversTarget
  split at h
  · exact hlive h
  · split at h
    · -- the row of the exact target
      rename_i g' hexact
      cases h
      obtain ⟨hmem, hscope, hg⟩ := hlive hexact
      refine ⟨hmem, hscope, ?_⟩
      simp only [hg, Bool.true_or]
    · -- a selector
      obtain ⟨hmem, hscope, hg⟩ := hlive h
      refine ⟨hmem, hscope, ?_⟩
      simp only [hg, Bool.or_true]

/-- The hint for a parked call whose principal holds a grant without a target. -/
def nullTargetOnlyParkHint (table : List GrantRow) (operator : Operator)
    (opId connectorId : String) (targetId : Option Nat) (cutoff : Time) : Option String :=
  match targetId with
  | none => none
  | some _ =>
    if table.any fun g => liveGrantScope operator opId connectorId cutoff g && g.isTargetless then
      some ("a null-target standing grant does not match a target-scoped dispatch — null is " ++
        "matched literally, not as an any-target wildcard. Scope the grant to this target, or " ++
        "use a target selector (target_product / target_name_pattern) to authorise targets " ++
        "that do not exist yet (#3349)")
    else none

/-! ## The use of a grant -/

/-- A grant that clears a call, with the evidence its audit row stores. A call that only asks for
the verdict records nothing. -/
structure GrantUse where
  grant : GrantRow
  deleteGrant : Bool
  evidence : Dict
  recorded : Bool

/-- The payload of the audit row of a use. -/
def GrantUse.payload (use : GrantUse) (operator : Operator) (connectorId : String) : Dict :=
  let selected := use.grant.isSelector
  let optional : Option String → Json := fun s => (s.map Json.str).getD .null
  dictUpdate
    ([("decision", Json.str "auto-approved"),
      ("reviewed_by", .str s!"grant:{use.grant.id}"),
      ("grant_id", .str (toString use.grant.id)),
      ("op_id", .str use.grant.opId),
      ("connector_id", .str connectorId),
      ("principal_sub", .str operator.sub),
      ("reason", .str s!"auto-granted by standing grant {use.grant.id}"),
      ("result_status", .str "decision"),
      ("matched_by", .str (if selected then "selector" else "target"))] ++
      (if selected then
        [("target_selector", Json.obj [("target_product", optional use.grant.targetProduct),
          ("target_name_pattern", optional use.grant.targetNamePattern)])]
      else []) ++
      (if use.deleteGrant then [("delete_grant", Json.bool true)] else []))
    ((if use.deleteGrant then use.evidence else []) ++
      (if operator.roleFromPlatformAdmin then
        [("tenant_role_source", Json.str "platform_admin")]
      else []))

/-- The call as the effect of an approval request is built for it. -/
def PolicyCall.effectCall (c : PolicyCall) (connectorId : String) (params : Params) :
    EffectCall where
  operator := c.operator
  actorSub := c.actorSub
  connectorId := connectorId
  descriptor := c.descriptor
  targetId := c.targetId
  params := params

/-- What a use of a delete grant stores, `none` when the call is refused. -/
def deleteGrantEvidence (x : PolicyContext) (c : PolicyCall) (connectorId : String) :
    Option Dict :=
  if c.descriptor.safetyLevel = .destructive then
    match c.previewHash, c.params with
    | some previewHash, some params =>
      destructiveBindingEvidence x.classifyOp x.hooks x.preview (c.effectCall connectorId params)
        previewHash
    | _, _ => none
  else
    let effect := buildProposedEffect x.classifyOp x.hooks
      (c.effectCall connectorId (c.params.getD []))
    some [("proposed_effect", (effect.map Json.obj).getD .null)]

/-- A delete grant of a sandbox clears a delete. -/
def consultDeleteGrant (x : PolicyContext) (c : PolicyCall) (connectorId : String) :
    Option GrantUse :=
  match x.deleteReason c with
  | none => none
  | some _ =>
    match findLiveGrant x.deleteGrants c.operator c.descriptor.opId connectorId c.target x.now with
    | none => none
    | some grant =>
      -- a preview reports the grant and neither builds nor stores the evidence
      if c.decideOnly then some ⟨grant, true, [], false⟩
      else
        match deleteGrantEvidence x c connectorId with
        | none => none
        | some evidence => some ⟨grant, true, evidence, true⟩

/-- The grant that clears the call, if one does. -/
def consultAndRecordGrant (x : PolicyContext) (c : PolicyCall) (connectorId : String) :
    Option GrantUse :=
  if hasCallerAddress c.descriptor.parameterSchema then none
  else
    match (if x.sandboxModeActive then consultDeleteGrant x c connectorId else none) with
    | some use => some use
    | none =>
      -- a row that is older than the sign clears nothing
      match x.deleteReason c with
      | some _ => none
      | none =>
        (findLiveGrant x.grants c.operator c.descriptor.opId connectorId c.target x.now).map
          fun grant => ⟨grant, false, [], !c.decideOnly⟩

/-! ## What a cleared call went through -/

/-- The call shows what a destructive delete under a grant must show: the hash of its own preview
as the preview is now, and a blast radius. -/
structure DeleteEvidence (x : PolicyContext) (c : PolicyCall) (connectorId : String) : Prop where
  previewHash : c.previewHash = some x.preview.hash
  previewOk : x.preview.status = "ok"
  blastRadius : ∃ params, c.params = some params ∧
    blastRadiusMissingReason
      (buildProposedEffect x.classifyOp x.hooks (c.effectCall connectorId params)) = none

/-- A live delete grant covers the call, the sandbox is on, and a destructive call that is not
only asked about shows its evidence. -/
structure DeleteGranted (x : PolicyContext) (c : PolicyCall) (connectorId : String)
    (grant : GrantRow) : Prop where
  sandbox : x.sandboxModeActive = true
  mem : grant ∈ x.deleteGrants
  live : liveGrantScope c.operator c.descriptor.opId connectorId x.now grant = true
  target : grant.coversTarget c.target = true
  evidence : c.decideOnly = false → c.descriptor.safetyLevel = .destructive →
    DeleteEvidence x c connectorId

theorem destructiveBindingEvidence_some {classifyOp : String → String} {hooks : EffectHooks}
    {preview : PreviewAnswer} {c : EffectCall} {previewHash : String} {evidence : Dict}
    (h : destructiveBindingEvidence classifyOp hooks preview c previewHash = some evidence) :
    previewHash = preview.hash ∧ preview.status = "ok" ∧
      blastRadiusMissingReason (buildProposedEffect classifyOp hooks c) = none ∧
      ∃ block, evidence = [("preview_hash", .str previewHash), ("blast_radius", block)] := by
  unfold destructiveBindingEvidence at h
  simp only at h
  split at h
  · rename_i hbind _
    obtain ⟨hhash, hstatus, hblast⟩ := destructiveBindingRefusal_none hbind
    obtain ⟨block, -, hevidence⟩ := Option.map_eq_some_iff.mp h
    exact ⟨Option.some.inj hhash, hstatus, hblast, block, hevidence.symm⟩
  · cases h

variable {c : PolicyCall} {x : PolicyContext}

theorem deleteGrantEvidence_destructive {evidence : Dict}
    (h : deleteGrantEvidence x c connectorId = some evidence)
    (hlevel : c.descriptor.safetyLevel = .destructive) :
    DeleteEvidence x c connectorId ∧
      ∃ block, evidence = [("preview_hash", .str x.preview.hash), ("blast_radius", block)] := by
  unfold deleteGrantEvidence at h
  rw [if_pos hlevel] at h
  split at h
  · rename_i previewHash params hhash hparams
    obtain ⟨rfl, hstatus, hblast, hstored⟩ := destructiveBindingEvidence_some h
    exact ⟨⟨hhash, hstatus, params, hparams, hblast⟩, hstored⟩
  · cases h

theorem consultDeleteGrant_some {use : GrantUse} (h : consultDeleteGrant x c connectorId = some use)
    (hsandbox : x.sandboxModeActive = true) : DeleteGranted x c connectorId use.grant := by
  unfold consultDeleteGrant at h
  split at h
  · cases h
  · split at h
    · cases h
    · rename_i grant hfind
      obtain ⟨hmem, hlive, htarget⟩ := findLiveGrant_some hfind
      split at h
      · rename_i hdecide
        cases h
        exact ⟨hsandbox, hmem, hlive, htarget, fun hno => absurd (hno ▸ hdecide) (by decide)⟩
      · split at h
        · cases h
        · rename_i evidence hevidence
          cases h
          exact ⟨hsandbox, hmem, hlive, htarget,
            fun _ hlevel => (deleteGrantEvidence_destructive hevidence hlevel).1⟩

theorem consultAndRecordGrant_some {use : GrantUse}
    (h : consultAndRecordGrant x c connectorId = some use) :
    DeleteGranted x c connectorId use.grant ∨
      (x.deleteReason c = none ∧ use.grant ∈ x.grants ∧
        liveGrantScope c.operator c.descriptor.opId connectorId x.now use.grant = true ∧
        use.grant.coversTarget c.target = true) := by
  unfold consultAndRecordGrant at h
  split at h
  · cases h
  · split at h
    · -- the delete table answered, so the sandbox is on
      rename_i use' hdelete
      cases h
      split at hdelete
      · rename_i hsandbox
        exact .inl (consultDeleteGrant_some hdelete hsandbox)
      · cases hdelete
    · split at h
      · cases h
      · rename_i hreason
        obtain ⟨grant, hfind, rfl⟩ := Option.map_eq_some_iff.mp h
        exact .inr ⟨hreason, findLiveGrant_some hfind⟩

/-- The ordinary grants have no say about an operation with a delete sign. -/
theorem consultAndRecordGrant_deleteSign (hsign : (x.deleteReason c).isSome = true)
    (grants : List GrantRow) (connectorId : String) :
    consultAndRecordGrant { x with grants := grants } c connectorId =
      consultAndRecordGrant x c connectorId := by
  obtain ⟨reason, hreason⟩ := Option.isSome_iff_exists.mp hsign
  have hreason' : PolicyContext.deleteReason { x with grants := grants } c = some reason := hreason
  unfold consultAndRecordGrant
  rw [hreason, hreason']
  rfl

def ReadScopeEntry.matches (entry : ReadScopeEntry) (target : DispatchTarget) : Bool :=
  match entry with
  | .noTarget => false
  | .target id => target.id = some id
  | .selector product namePattern => selectorMatches product namePattern target.product target.name

/-- Why a read scope does not cover the call's target, `none` when it does or there is none. -/
def readScopeDenial (scopes : List ReadScope) (operator : Operator)
    (target : Option DispatchTarget) : Option String :=
  let change := "a person can change it with \x60meho service-principals read-scope set\x60"
  match scopes.find? fun s => s.tenantId = operator.tenantId && s.principalSub = operator.sub with
  | none => none
  | some scope =>
    match target with
    | none =>
      if scope.entries.any (· matches .noTarget) then none
      else some ("read_scope_denied: this call has no target, and the read scope of service " ++
        "principal " ++ quoted operator.sub ++ " has no 'no target' entry; " ++ change)
    | some target =>
      if scope.entries.any (·.matches target) then none
      else some ("read_scope_denied: target " ++ ((target.name.map quoted).getD "None") ++ " (" ++
        ((target.id.map toString).getD "None") ++ ") is outside the read scope of service " ++
        "principal " ++ quoted operator.sub ++ "; " ++ change)

end Meho.Policy
