import Meho.Auth.Operator
import Meho.Lib.History
import Meho.Lib.Index
import Meho.Runbook.Template

/- The versions of runbook templates under concurrent calls (runbooks/service.py).

A template is drafted, published and deprecated. Each call opens a session of its
own: it reads, decides on what it read, and commits. A commit writes rows under
their primary key; only an insert is checked, by the unique index on tenant, slug
and version. The lock an edit takes is shared, so it keeps no other call out.

`StillDraft` is the condition under which a commit meets what its call had read:
the row that is edited or discarded is still a draft, and a new draft is the only
one. In every interleaving where it holds, what was published stays as it is and
there is one draft at a time (`published_immutable`). The code does not check it
again: `published_body_changes` is an edit that commits behind a publish.

Correspondence: `RunbookTemplate` ↔ `TemplateRow`, `create_draft` ↔ `CreateStage`,
`update_or_fork` ↔ `EditStage`, `publish` ↔ `PublishStage`, `deprecate` ↔
`DeprecateStage`, `discard` ↔ `DiscardStage`; what is not listed keeps its name. `same`
is Python's equality of stored steps. -/
namespace Meho.Runbook
open Meho.Lib

/-! ## Rows -/

inductive TemplateStatus where
  | draft
  | published
  | deprecated
  deriving DecidableEq, Repr

/-- `RunbookTemplate`. The id is the primary key. -/
structure TemplateRow where
  id : Nat
  tenantId : Nat
  slug : String
  version : Nat
  body : RunbookTemplateBody
  status : TemplateStatus
  createdBy : String
  createdAt : Time
  editedBy : String
  editedAt : Time

/-- The table, and the id the next insert draws. -/
structure TemplateTable where
  rows : List TemplateRow
  nextId : Nat

inductive TemplateError where
  | notFound
  | notDraft (status : TemplateStatus)
  | notPublished (status : TemplateStatus)
  | duplicateDraft (latest : Nat)
  /-- The unique index refused the insert. -/
  | integrity
  /-- The row of an update is gone. -/
  | staleData

def TemplateRow.hasSlug (tenantId : Nat) (slug : String) (r : TemplateRow) : Bool :=
  r.tenantId = tenantId && r.slug = slug

namespace TemplateTable

/-- `LIMIT 1` of the drafts; which one, if there were several, is up to the database. -/
def loadDraft (t : TemplateTable) (tenantId : Nat) (slug : String) (pick : Nat) :
    Option TemplateRow :=
  ((t.rows.filter fun r => r.hasSlug tenantId slug && r.status = .draft).rotate pick).head?

def resolveLatestVersion (t : TemplateTable) (tenantId : Nat) (slug : String) : Option Nat :=
  ((t.rows.filter (·.hasSlug tenantId slug)).map (·.version)).max?

def loadExact (t : TemplateTable) (tenantId : Nat) (slug : String) (version : Nat) :
    Option TemplateRow :=
  t.rows.find? fun r => r.hasSlug tenantId slug && r.version = version

/-- The row of a new draft. The unique index answers for the key. -/
def insertDraft (t : TemplateTable) (tenantId : Nat) (slug : String) (version : Nat)
    (body : RunbookTemplateBody) (operatorSub : String) (now : Time) :
    Except TemplateError TemplateTable :=
  if (t.loadExact tenantId slug version).isSome then .error .integrity
  else .ok ⟨t.rows ++ [⟨t.nextId, tenantId, slug, version, body, .draft, operatorSub, now,
    operatorSub, now⟩], t.nextId + 1⟩

/-- An update under the primary key. -/
def updateById (t : TemplateTable) (id : Nat) (f : TemplateRow → TemplateRow) :
    Except TemplateError TemplateTable :=
  if t.rows.any (·.id = id) then
    .ok { t with rows := t.rows.map fun r => if r.id = id then f r else r }
  else .error .staleData

/-- A delete under the primary key. A row that is gone is no error. -/
def deleteById (t : TemplateTable) (id : Nat) : TemplateTable :=
  { t with rows := t.rows.filter (·.id ≠ id) }

end TemplateTable

/-- A column of a commit: it is written only when the session has changed it. -/
def written {α : Type} [BEq α] (loaded new committed : α) : α :=
  if loaded == new then committed else new

/-! ## Calls -/

inductive CreateStage where
  | latest
  | insert

inductive EditStage where
  | loadDraft
  | writeDraft (draft : TemplateRow)
  | latest
  | loadSource (version : Nat)
  | insert (sourceVersion : Nat)

inductive PublishStage where
  | load
  | write (row : TemplateRow)

inductive DeprecateStage where
  | load
  | write (row : TemplateRow)

inductive DiscardStage where
  | load
  | write (row : TemplateRow)

/-- A request to write a body. -/
structure BodyCall where
  tenantId : Nat
  operatorSub : String
  slug : String
  body : RunbookTemplateBody

/-- A request that names a version. -/
structure VersionCall where
  tenantId : Nat
  slug : String
  version : Nat

/-- A call on the templates, at its stage. -/
inductive TemplateProc where
  | create (call : BodyCall) (stage : CreateStage)
  | edit (call : BodyCall) (stage : EditStage)
  | publish (call : VersionCall) (stage : PublishStage)
  | deprecateTemplate (call : VersionCall) (stage : DeprecateStage)
  | discard (call : VersionCall) (stage : DiscardStage)
  | answered (answer : Except TemplateError Unit)

/-- What a statement of a call does. -/
inductive TemplateEffect where
  | moved (proc : TemplateProc)
  | committed (table : TemplateTable)
  | answered (answer : Except TemplateError Unit)

/-- A commit the database may refuse. -/
def TemplateEffect.ofCommit : Except TemplateError TemplateTable → TemplateEffect
  | .ok table => .committed table
  | .error e => .answered (.error e)

/-- The clock, and the choice of the database among drafts. -/
structure TemplateInput where
  now : Time
  pick : Nat

def CreateStage.step (t : TemplateTable) (call : BodyCall) (input : TemplateInput) :
    CreateStage → TemplateEffect
  | .latest =>
    match t.resolveLatestVersion call.tenantId call.slug with
    | some version => .answered (.error (.duplicateDraft version))
    | none => .moved (.create call .insert)
  | .insert =>
    .ofCommit (t.insertDraft call.tenantId call.slug 1 call.body call.operatorSub input.now)

section Edit
variable (same : List Step → List Step → Bool)

def bodyMatches (row : TemplateRow) (body : RunbookTemplateBody) : Bool :=
  row.body.title = body.title && row.body.description = body.description &&
    row.body.targetKind = body.targetKind && same row.body.steps body.steps

def writtenBody (loaded new committed : RunbookTemplateBody) : RunbookTemplateBody where
  title := written loaded.title new.title committed.title
  description := written loaded.description new.description committed.description
  targetKind := written loaded.targetKind new.targetKind committed.targetKind
  steps := if same loaded.steps new.steps then committed.steps else new.steps

def EditStage.step (t : TemplateTable) (call : BodyCall) (input : TemplateInput) :
    EditStage → TemplateEffect
  | .loadDraft =>
    match t.loadDraft call.tenantId call.slug input.pick with
    -- the draft is edited in place
    | some draft => .moved (.edit call (.writeDraft draft))
    | none => .moved (.edit call .latest)
  | .writeDraft draft =>
    .ofCommit (t.updateById draft.id fun row =>
      { row with
        body := writtenBody same draft.body call.body row.body
        editedBy := written draft.editedBy call.operatorSub row.editedBy
        editedAt := written draft.editedAt input.now row.editedAt })
  | .latest =>
    match t.resolveLatestVersion call.tenantId call.slug with
    | none => .answered (.error .notFound)
    | some version => .moved (.edit call (.loadSource version))
  | .loadSource version =>
    match t.loadExact call.tenantId call.slug version with
    | none => .moved (.edit call (.insert version))
    | some source =>
      -- an edit that changes nothing makes no new version
      if bodyMatches same source call.body then .answered (.ok ())
      else .moved (.edit call (.insert version))
  | .insert sourceVersion =>
    .ofCommit (t.insertDraft call.tenantId call.slug (sourceVersion + 1) call.body
      call.operatorSub input.now)

end Edit

def PublishStage.step (t : TemplateTable) (call : VersionCall) : PublishStage → TemplateEffect
  | .load =>
    match t.loadExact call.tenantId call.slug call.version with
    | none => .answered (.error .notFound)
    | some row =>
      if row.status = .published then .answered (.ok ())
      else if row.status ≠ .draft then .answered (.error (.notDraft row.status))
      else .moved (.publish call (.write row))
  | .write row => .ofCommit (t.updateById row.id fun r => { r with status := .published })

def DeprecateStage.step (t : TemplateTable) (call : VersionCall) :
    DeprecateStage → TemplateEffect
  | .load =>
    match t.loadExact call.tenantId call.slug call.version with
    | none => .answered (.error .notFound)
    | some row =>
      if row.status = .deprecated then .answered (.ok ())
      else if row.status ≠ .published then .answered (.error (.notPublished row.status))
      else .moved (.deprecateTemplate call (.write row))
  | .write row => .ofCommit (t.updateById row.id fun r => { r with status := .deprecated })

def DiscardStage.step (t : TemplateTable) (call : VersionCall) : DiscardStage → TemplateEffect
  | .load =>
    match t.loadExact call.tenantId call.slug call.version with
    | none => .answered (.error .notFound)
    | some row =>
      if row.status ≠ .draft then .answered (.error (.notDraft row.status))
      else .moved (.discard call (.write row))
  | .write row => .committed (t.deleteById row.id)

def TemplateProc.step (same : List Step → List Step → Bool) (t : TemplateTable)
    (input : TemplateInput) : TemplateProc → TemplateEffect
  | .create call stage => stage.step t call input
  | .edit call stage => stage.step same t call input
  | .publish call stage => stage.step t call
  | .deprecateTemplate call stage => stage.step t call
  | .discard call stage => stage.step t call
  | .answered answer => .answered answer

/-! ## All calls -/

/-- The table and the calls under way. -/
structure TemplateWorld where
  table : TemplateTable
  procs : List TemplateProc

/-- A new call, or the next statement of a call. -/
inductive TemplateAct where
  | createDraft (call : BodyCall)
  | updateOrFork (call : BodyCall)
  | publish (call : VersionCall)
  | deprecateTemplate (call : VersionCall)
  | discard (call : VersionCall)
  | step (pid : Nat) (input : TemplateInput)

def TemplateWorld.after (w : TemplateWorld) (pid : Nat) : TemplateEffect → TemplateWorld
  | .moved proc => { w with procs := w.procs.set pid proc }
  | .committed table => ⟨table, w.procs.set pid (.answered (.ok ()))⟩
  | .answered answer => { w with procs := w.procs.set pid (.answered answer) }

def TemplateWorld.call (w : TemplateWorld) (proc : TemplateProc) : TemplateWorld :=
  { w with procs := w.procs ++ [proc] }

section World
variable (same : List Step → List Step → Bool)

def templateStep (w : TemplateWorld) : TemplateAct → TemplateWorld
  | .createDraft call => w.call (.create call .latest)
  | .updateOrFork call => w.call (.edit call .loadDraft)
  | .publish call => w.call (.publish call .load)
  | .deprecateTemplate call => w.call (.deprecateTemplate call .load)
  | .discard call => w.call (.discard call .load)
  | .step pid input =>
    match w.procs[pid]? with
    | none => w
    | some proc => w.after pid (proc.step same w.table input)

def templateMachine : Machine TemplateWorld TemplateAct Empty where
  start := ⟨⟨[], 0⟩, []⟩
  step w a := (templateStep same w a, [])

end World

/-! ## What is published stays -/

section Frozen
variable (same : List Step → List Step → Bool)

/-- A row that is no longer a draft is kept, with its key and its body. -/
def Frozen (rows rows' : List TemplateRow) : Prop :=
  ∀ r ∈ rows, r.status ≠ .draft → ∃ r' ∈ rows', r'.id = r.id ∧ r'.tenantId = r.tenantId ∧
    r'.slug = r.slug ∧ r'.version = r.version ∧ r'.body = r.body ∧ r'.status ≠ .draft

/-- At most one draft of a tenant's slug. -/
def OneDraft (rows : List TemplateRow) : Prop :=
  ∀ r ∈ rows, ∀ r' ∈ rows, r.status = .draft → r'.status = .draft → r.tenantId = r'.tenantId →
    r.slug = r'.slug → r.id = r'.id

/-- The ids are those that were drawn, each one once. -/
structure TemplateTable.Keyed (t : TemplateTable) : Prop where
  nodup : (t.rows.map (·.id)).Nodup
  drawn : ∀ r ∈ t.rows, r.id < t.nextId

/-- What every statement keeps of the table. -/
structure TemplateTable.Kept (t : TemplateTable) : Prop where
  keyed : t.Keyed
  oneDraft : OneDraft t.rows

theorem Frozen.refl (rows : List TemplateRow) : Frozen rows rows :=
  fun r hr hstatus => ⟨r, hr, rfl, rfl, rfl, rfl, rfl, hstatus⟩

theorem Frozen.trans {a b c : List TemplateRow} (h : Frozen a b) (h' : Frozen b c) :
    Frozen a c := by
  intro r hr hstatus
  obtain ⟨s, hs, hid, htenant, hslug, hversion, hbody, hsstatus⟩ := h r hr hstatus
  obtain ⟨u, hu, hid', htenant', hslug', hversion', hbody', hustatus⟩ := h' s hs hsstatus
  exact ⟨u, hu, hid'.trans hid, htenant'.trans htenant, hslug'.trans hslug,
    hversion'.trans hversion, hbody'.trans hbody, hustatus⟩

/-- **A commit finds what its call had read**: the row that is edited or discarded is a draft, and
a draft that is inserted is the only one of its slug. Other statements always do. -/
def StillDraft (c : Config TemplateWorld Empty) : TemplateAct → Prop
  | .step pid _ =>
    match c.state.procs[pid]? with
    | some (.edit _ (.writeDraft draft)) =>
      ∀ r ∈ c.state.table.rows, r.id = draft.id → r.status = .draft
    | some (.discard _ (.write row)) =>
      ∀ r ∈ c.state.table.rows, r.id = row.id → r.status = .draft
    | some (.edit call (.insert sourceVersion)) =>
      c.state.table.loadExact call.tenantId call.slug (sourceVersion + 1) = none →
        ∀ r ∈ c.state.table.rows, r.hasSlug call.tenantId call.slug = true → r.status ≠ .draft
    | some (.create call .insert) =>
      c.state.table.loadExact call.tenantId call.slug 1 = none →
        ∀ r ∈ c.state.table.rows, r.hasSlug call.tenantId call.slug = true → r.status ≠ .draft
    | _ => True
  | _ => True

/-- An update of one row that keeps the row's key, makes nothing a draft, and leaves the body of
what is no draft. -/
structure Keeps (id : Nat) (rows : List TemplateRow) (f : TemplateRow → TemplateRow) : Prop where
  key : ∀ r, (f r).id = r.id ∧ (f r).tenantId = r.tenantId ∧ (f r).slug = r.slug ∧
    (f r).version = r.version
  body : ∀ r ∈ rows, r.id = id → r.status ≠ .draft →
    (f r).body = r.body ∧ (f r).status ≠ .draft
  status : ∀ r, (f r).status = .draft → r.status = .draft

section
variable {t : TemplateTable} (h : t.Kept)
include h

theorem TemplateTable.Kept.updateById {t' : TemplateTable} {id : Nat}
    {f : TemplateRow → TemplateRow} (hf : Keeps id t.rows f) (hupdate : t.updateById id f = .ok t') :
    t'.Kept ∧ Frozen t.rows t'.rows := by
  unfold TemplateTable.updateById at hupdate
  split at hupdate
  · cases hupdate
    have hid : ∀ r : TemplateRow, (if r.id = id then f r else r).id = r.id := by
      intro r
      split
      · exact (hf.key r).1
      · rfl
    -- every row comes from one with its key, and a draft from a draft
    have hback : ∀ r' ∈ t.rows.map (fun r => if r.id = id then f r else r), ∃ r ∈ t.rows,
        r'.id = r.id ∧ r'.tenantId = r.tenantId ∧ r'.slug = r.slug ∧
          (r'.status = .draft → r.status = .draft) := by
      intro r' hr'
      obtain ⟨r, hr, rfl⟩ := List.mem_map.mp hr'
      refine ⟨r, hr, ?_⟩
      split
      · exact ⟨(hf.key r).1, (hf.key r).2.1, (hf.key r).2.2.1, hf.status r⟩
      · exact ⟨rfl, rfl, rfl, fun hdraft => hdraft⟩
    refine ⟨⟨⟨?_, ?_⟩, ?_⟩, ?_⟩
    · rw [List.map_map]
      have hsame : t.rows.map ((·.id) ∘ fun r => if r.id = id then f r else r) =
          t.rows.map (·.id) := List.map_congr_left fun r _ => hid r
      rw [hsame]
      exact h.keyed.nodup
    · intro r' hr'
      obtain ⟨r, hr, heq, -⟩ := hback r' hr'
      rw [heq]
      exact h.keyed.drawn r hr
    · intro r hr s hs hdraft hdraft' htenant hslug
      obtain ⟨r₀, hr₀, hrid, hrtenant, hrslug, hrdraft⟩ := hback r hr
      obtain ⟨s₀, hs₀, hsid, hstenant, hsslug, hsdraft⟩ := hback s hs
      rw [hrid, hsid]
      exact h.oneDraft r₀ hr₀ s₀ hs₀ (hrdraft hdraft) (hsdraft hdraft')
        (hrtenant.symm.trans (htenant.trans hstenant)) (hrslug.symm.trans (hslug.trans hsslug))
    · intro r hr hstatus
      refine ⟨_, List.mem_map_of_mem hr, ?_⟩
      split
      · rename_i heq
        obtain ⟨hbody, hnew⟩ := hf.body r hr heq hstatus
        exact ⟨(hf.key r).1, (hf.key r).2.1, (hf.key r).2.2.1, (hf.key r).2.2.2, hbody, hnew⟩
      · exact ⟨rfl, rfl, rfl, rfl, rfl, hstatus⟩
  · cases hupdate

theorem TemplateTable.Kept.deleteById {id : Nat}
    (hdraft : ∀ r ∈ t.rows, r.id = id → r.status = .draft) :
    (t.deleteById id).Kept ∧ Frozen t.rows (t.deleteById id).rows := by
  have hsub : ∀ r ∈ (t.deleteById id).rows, r ∈ t.rows := fun r hr => (List.mem_filter.mp hr).1
  refine ⟨⟨⟨?_, ?_⟩, ?_⟩, ?_⟩
  · exact h.keyed.nodup.sublist (List.filter_sublist.map _)
  · exact fun r hr => h.keyed.drawn r (hsub r hr)
  · exact fun r hr s hs => h.oneDraft r (hsub r hr) s (hsub s hs)
  · intro r hr hstatus
    have hne : r.id ≠ id := fun heq => hstatus (hdraft r hr heq)
    have hleft : r ∈ (t.deleteById id).rows := List.mem_filter.mpr ⟨hr, by simpa using hne⟩
    exact Frozen.refl _ r hleft hstatus

theorem TemplateTable.Kept.insertDraft {t' : TemplateTable} {tenantId version : Nat}
    {slug operatorSub : String} {body : RunbookTemplateBody} {now : Time}
    (honly : t.loadExact tenantId slug version = none → ∀ r ∈ t.rows, r.hasSlug tenantId slug = true → r.status ≠ .draft)
    (hinsert : t.insertDraft tenantId slug version body operatorSub now = .ok t') :
    t'.Kept ∧ Frozen t.rows t'.rows := by
  unfold TemplateTable.insertDraft at hinsert
  split at hinsert
  · cases hinsert
  · rename_i hfree
    have hnone := honly (Option.not_isSome_iff_eq_none.mp hfree)
    cases hinsert
    refine ⟨⟨⟨?_, ?_⟩, ?_⟩, ?_⟩
    · rw [List.map_append, List.nodup_append]
      refine ⟨h.keyed.nodup, List.pairwise_singleton _ _, ?_⟩
      intro a ha b hb
      obtain ⟨r, hr, rfl⟩ := List.mem_map.mp ha
      obtain rfl := List.mem_singleton.mp hb
      exact Nat.ne_of_lt (h.keyed.drawn r hr)
    · intro r hr
      rcases List.mem_append.mp hr with hr | hr
      · exact Nat.lt_succ_of_lt (h.keyed.drawn r hr)
      · obtain rfl := List.mem_singleton.mp hr
        exact Nat.lt_succ_self _
    · -- the new draft is the only one of its slug
      have hother : ∀ r ∈ t.rows, r.status = .draft → r.tenantId = tenantId → r.slug ≠ slug := by
        intro r hr hdraft htenant hslug
        exact hnone r hr (by simp [TemplateRow.hasSlug, htenant, hslug]) hdraft
      intro r hr s hs hdraft hdraft' htenant hslug
      rcases List.mem_append.mp hr with hr | hr
      · rcases List.mem_append.mp hs with hs | hs
        · exact h.oneDraft r hr s hs hdraft hdraft' htenant hslug
        · obtain rfl := List.mem_singleton.mp hs
          exact absurd hslug (hother r hr hdraft htenant)
      · rcases List.mem_append.mp hs with hs | hs
        · obtain rfl := List.mem_singleton.mp hr
          exact absurd hslug.symm (hother s hs hdraft' htenant.symm)
        · obtain rfl := List.mem_singleton.mp hr
          obtain rfl := List.mem_singleton.mp hs
          rfl
    · intro r hr hstatus
      exact ⟨r, List.mem_append_left _ hr, rfl, rfl, rfl, rfl, rfl, hstatus⟩

end

/-- What a statement leaves of the table. -/
def TemplateEffect.Kept (t : TemplateTable) : TemplateEffect → Prop
  | .committed t' => t'.Kept ∧ Frozen t.rows t'.rows
  | _ => True

theorem TemplateEffect.kept_ofCommit {t : TemplateTable} {x : Except TemplateError TemplateTable}
    (h : ∀ t', x = .ok t' → t'.Kept ∧ Frozen t.rows t'.rows) :
    (TemplateEffect.ofCommit x).Kept t := by
  cases x with
  | ok t' => exact h t' rfl
  | error e => trivial

theorem TemplateProc.step_kept {w : TemplateWorld} (h : w.table.Kept) {pid : Nat}
    {p : TemplateProc} (hp : w.procs[pid]? = some p) {input : TemplateInput} {events : List Empty}
    (hdraft : StillDraft ⟨w, events⟩ (.step pid input)) :
    (p.step same w.table input).Kept w.table := by
  simp only [StillDraft, hp] at hdraft
  cases p with
  | create call stage =>
    cases stage with
    | latest =>
      simp only [TemplateProc.step, CreateStage.step]
      split <;> trivial
    -- only a statement that commits can break the table; the ones that read leave it
    | insert => exact TemplateEffect.kept_ofCommit fun t' ht' => h.insertDraft hdraft ht'
  | edit call stage =>
    cases stage with
    | loadDraft =>
      simp only [TemplateProc.step, EditStage.step]
      split <;> trivial
    | writeDraft draft =>
      -- the edit: it keeps the key and the status, and the row it writes is a draft
      refine TemplateEffect.kept_ofCommit fun t' ht' => h.updateById ⟨?_, ?_, ?_⟩ ht'
      · exact fun r => ⟨rfl, rfl, rfl, rfl⟩
      · exact fun r hr hid hstatus => absurd (hdraft r hr hid) hstatus
      · exact fun r hstatus => hstatus
    | latest =>
      simp only [TemplateProc.step, EditStage.step]
      split <;> trivial
    | loadSource version =>
      simp only [TemplateProc.step, EditStage.step]
      split
      · trivial
      · split <;> trivial
    | insert sourceVersion =>
      exact TemplateEffect.kept_ofCommit fun t' ht' => h.insertDraft hdraft ht'
  | publish call stage =>
    cases stage with
    | load =>
      simp only [TemplateProc.step, PublishStage.step]
      split
      · trivial
      · split
        · trivial
        · split <;> trivial
    | write row =>
      -- publishing makes a row no draft, so there is no draft more than before
      refine TemplateEffect.kept_ofCommit fun t' ht' => h.updateById ⟨?_, ?_, ?_⟩ ht'
      · exact fun r => ⟨rfl, rfl, rfl, rfl⟩
      · exact fun r _ _ _ => ⟨rfl, nofun⟩
      · exact fun r hstatus => nomatch hstatus
  | deprecateTemplate call stage =>
    cases stage with
    | load =>
      simp only [TemplateProc.step, DeprecateStage.step]
      split
      · trivial
      · split
        · trivial
        · split <;> trivial
    | write row =>
      refine TemplateEffect.kept_ofCommit fun t' ht' => h.updateById ⟨?_, ?_, ?_⟩ ht'
      · exact fun r => ⟨rfl, rfl, rfl, rfl⟩
      · exact fun r _ _ _ => ⟨rfl, nofun⟩
      · exact fun r hstatus => nomatch hstatus
  | discard call stage =>
    cases stage with
    | load =>
      simp only [TemplateProc.step, DiscardStage.step]
      split
      · trivial
      · split <;> trivial
    | write row => exact h.deleteById hdraft
  | answered answer => trivial

theorem TemplateTable.Kept.act {c : Config TemplateWorld Empty} (h : c.state.table.Kept)
    {a : TemplateAct} (hdraft : StillDraft c a) :
    ((templateMachine same).next c a).state.table.Kept ∧
      Frozen c.state.table.rows ((templateMachine same).next c a).state.table.rows := by
  obtain ⟨w, events⟩ := c
  have hsame : w.table.Kept ∧ Frozen w.table.rows w.table.rows := ⟨h, Frozen.refl _⟩
  cases a with
  | createDraft call | updateOrFork call | publish call | deprecateTemplate call | discard call =>
      exact hsame
  | step pid input =>
    change (templateStep same w (.step pid input)).table.Kept ∧
      Frozen w.table.rows (templateStep same w (.step pid input)).table.rows
    cases hp : w.procs[pid]? with
    | none =>
      simp only [templateStep, hp]
      exact hsame
    | some p =>
      have hkept := TemplateProc.step_kept same h hp hdraft
      simp only [templateStep, hp]
      generalize p.step same w.table input = effect at hkept ⊢
      cases effect with
      | moved q => exact hsame
      | committed t' => exact hkept
      | answered answer => exact hsame

theorem frozen_of_stillDraft {c : Config TemplateWorld Empty} (h : c.state.table.Kept)
    {acts : List TemplateAct} (hdraft : (templateMachine same).Along StillDraft c acts) :
    ((templateMachine same).run c acts).state.table.Kept ∧
      Frozen c.state.table.rows ((templateMachine same).run c acts).state.table.rows := by
  let I : Config TemplateWorld Empty → Prop := fun d =>
    d.state.table.Kept ∧ Frozen c.state.table.rows d.state.table.rows
  refine (templateMachine same).along_induct (I := I) ?_ ⟨h, Frozen.refl _⟩ hdraft
  intro d a hd ha
  obtain ⟨hkept, hfrozen⟩ := hd.1.act same ha
  exact ⟨hkept, hd.2.trans hfrozen⟩

/-- **What was published never changes.** In every interleaving of calls whose commits find the
drafts they had read: a version that was published at some time is there ever after, with its
body, and a tenant's slug has at most one draft at any time. -/
theorem published_immutable (acts : List TemplateAct)
    (hdraft : (templateMachine same).Along StillDraft (templateMachine same).begin_ acts) :
    OneDraft ((templateMachine same).after acts).state.table.rows ∧
      ∀ before later, acts = before ++ later →
        Frozen ((templateMachine same).after before).state.table.rows
          ((templateMachine same).after acts).state.table.rows := by
  have hstart : (templateMachine same).begin_.state.table.Kept :=
    ⟨⟨List.nodup_nil, fun _ h => absurd h List.not_mem_nil⟩, fun _ h => absurd h List.not_mem_nil⟩
  refine ⟨(frozen_of_stillDraft same hstart hdraft).1.oneDraft, ?_⟩
  intro before later hsplit
  subst hsplit
  obtain ⟨hbefore, hlater⟩ := ((templateMachine same).along_append _ _ _ _).mp hdraft
  have hmid := (frozen_of_stillDraft same hstart hbefore).1
  unfold Machine.after
  rw [Machine.run_append]
  exact (frozen_of_stillDraft same hmid hlater).2

end Frozen

/-! ## An edit behind a publish -/

def smallBody (title : String) : RunbookTemplateBody :=
  ⟨title, "d", none, [⟨"a", "t", "b", .manual, .confirm "done?"⟩]⟩

def bodyCall (title : String) : BodyCall := ⟨1, "op", "s", smallBody title⟩

/-- The next statement of a call. -/
def stepOf (pid : Nat) : TemplateAct := .step pid ⟨0, 0⟩

/-- A draft is created, and then published. -/
def draftAndPublish : List TemplateAct :=
  [.createDraft (bodyCall "one"), stepOf 0, stepOf 0, .publish ⟨1, "s", 1⟩, stepOf 1, stepOf 1]

theorem published_immutable_small :
    OneDraft ((templateMachine fun _ _ => true).after draftAndPublish).state.table.rows := by
  have hdraft : (templateMachine fun _ _ => true).Along StillDraft
      (templateMachine fun _ _ => true).begin_ draftAndPublish :=
    ⟨trivial, trivial, fun _ _ hr => absurd hr List.not_mem_nil, trivial, trivial, trivial, trivial⟩
  exact (published_immutable _ _ hdraft).1

/-- An edit reads the draft; it is published; the edit commits. -/
def editBehindPublish : List TemplateAct :=
  [.createDraft (bodyCall "one"), stepOf 0, stepOf 0, .updateOrFork (bodyCall "two"), stepOf 1,
    .publish ⟨1, "s", 1⟩, stepOf 2, stepOf 2]

theorem published_body_changes :
    let M := templateMachine fun _ _ => true
    ((M.after editBehindPublish).state.table.rows.map fun r => (r.status, r.body.title)) =
        [(.published, "one")] ∧
      ((M.after (editBehindPublish ++ [stepOf 1])).state.table.rows.map
        fun r => (r.status, r.body.title)) = [(.published, "two")] := by
  decide +kernel

end Meho.Runbook
