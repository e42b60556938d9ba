import Mathlib.Data.List.Nodup

/- Tables that keep a history of their changes.

A row has an id, and a snapshot of it can be recorded. A transaction is a list of
writes (`Write`): a row is inserted, seen again, updated, retired (it stays, but is no
longer live), removed, or removed with something that it belongs to. Every write but a
sighting and a removal of the last kind appends an entry to the history, with the
snapshots before and after it. An entry refers to its row until the row is removed.

A write fits a store when it starts from the row that the store has for its id
(`Write.Fits`). After writes that fit, to rows that are all different, the store has for
each id what the write to it left, and what it had for every other (`row_writeAll`). Writes
of rows that were read, each once (`Batch`), fit a store that takes their inserts. -/
namespace Meho.Lib.Journal

inductive ChangeKind where
  | created
  | updated
  | removed
  deriving DecidableEq, Repr

/-- Rows that a history can record. -/
class Recorded (ρ : Type) (σ : outParam Type) where
  rowId : ρ → Nat
  rowTenant : ρ → Nat
  snapshot : ρ → σ
  snapshotId : σ → Nat
  snapshotId_snapshot : ∀ r, snapshotId (snapshot r) = rowId r

export Recorded (rowId rowTenant snapshot snapshotId snapshotId_snapshot)

/-- A row of a history. -/
structure Entry (σ : Type) where
  historyId : Nat
  resourceId : Option Nat
  tenantId : Nat
  changeKind : ChangeKind
  before : Option σ
  after : Option σ
  validFrom : Int
  deriving DecidableEq, Repr

/-- A table and its history. -/
structure Store (ρ σ : Type) where
  rows : List ρ
  history : List (Entry σ)
  deriving DecidableEq

/-- What a transaction does to one row. -/
inductive Write (ρ : Type) where
  | insert (new : ρ)
  | sight (old new : ρ)
  | update (old new : ρ)
  | retire (old new : ρ)
  | remove (old : ρ)
  | cascade (old : ρ)
  deriving DecidableEq

variable {ρ σ : Type} [Recorded ρ σ]

/-! ## One write -/

namespace Write

/-- The row that the write starts from. -/
def old : Write ρ → Option ρ
  | .insert _ => none
  | .sight old _ | .update old _ | .retire old _ | .remove old | .cascade old => some old

/-- The row that the write leaves. -/
def new : Write ρ → Option ρ
  | .insert new | .sight _ new | .update _ new | .retire _ new => some new
  | .remove _ | .cascade _ => none

/-- The id of the row that is written. -/
def target : Write ρ → Nat
  | .insert new => rowId new
  | .sight old _ | .update old _ | .retire old _ | .remove old | .cascade old => rowId old

/-- What the history is told. -/
def change : Write ρ → Option (ChangeKind × Option σ × Option σ)
  | .insert new => some (.created, none, some (snapshot new))
  | .update old new => some (.updated, some (snapshot old), some (snapshot new))
  | .retire old _ | .remove old => some (.removed, some (snapshot old), none)
  | .sight _ _ | .cascade _ => none

/-- The id of a row that is added. -/
def inserted : Write ρ → Option Nat
  | .insert new => some (rowId new)
  | _ => none

/-- The id of a row that was there. -/
def touched (w : Write ρ) : Option Nat := w.old.map fun r => rowId r

end Write

namespace Store
variable (now : Int) (s : Store ρ σ)

/-- The row of an id. -/
def row (i : Nat) : Option ρ := s.rows.find? fun r => rowId r = i

/-- The history has a new entry, about row `i`. -/
def record (i tenant : Nat) (c : ChangeKind × Option σ × Option σ) : Store ρ σ :=
  { s with history := s.history ++ [⟨s.history.length, some i, tenant, c.1, c.2.1, c.2.2, now⟩] }

/-- The row of this id is replaced. -/
def put (r : ρ) : Store ρ σ := { s with rows := s.rows.map fun x => if rowId x = rowId r then r else x }

/-- The row of this id is gone, and no entry refers to it. -/
def erase (i : Nat) : Store ρ σ where
  rows := s.rows.filter fun r => rowId r ≠ i
  history := s.history.map fun e => if e.resourceId = some i then { e with resourceId := none } else e

def write : Write ρ → Store ρ σ
  | .insert new =>
    { s with rows := s.rows ++ [new] }.record now (rowId new) (rowTenant new)
      (.created, none, some (snapshot new))
  | .sight _ new => s.put new
  | .update old new =>
    (s.put new).record now (rowId old) (rowTenant old)
      (.updated, some (snapshot old), some (snapshot new))
  | .retire old new =>
    (s.put new).record now (rowId old) (rowTenant old) (.removed, some (snapshot old), none)
  | .remove old =>
    (s.record now (rowId old) (rowTenant old) (.removed, some (snapshot old), none)).erase (rowId old)
  | .cascade old => s.erase (rowId old)

/-- The writes of a transaction, one after the other. -/
def writeAll (ws : List (Write ρ)) : Store ρ σ := ws.foldl (fun s w => s.write now w) s

/-- The primary key lets every row in. It is checked at the insert, so a row that goes in the
same transaction still counts. -/
def Accepts (ws : List (Write ρ)) : Prop :=
  (ws.filterMap Write.inserted).Nodup ∧ ∀ i ∈ ws.filterMap Write.inserted, (s.row i).isNone

instance (ws : List (Write ρ)) : Decidable (s.Accepts ws) := by
  unfold Accepts
  infer_instance

end Store

/-- The write starts from the row that the store has for its id, and leaves one of that id. -/
structure Write.Fits (s : Store ρ σ) (w : Write ρ) : Prop where
  old : s.row w.target = w.old
  new : ∀ r ∈ w.new, rowId r = w.target

theorem Write.target_of_old {w : Write ρ} {r : ρ} (h : w.old = some r) : w.target = rowId r := by
  cases w <;> cases h <;> rfl

/-! ## The rows after a write -/

namespace Store
variable {now : Int} {s : Store ρ σ}

@[simp] theorem row_record (i j tenant : Nat) (c : ChangeKind × Option σ × Option σ) :
    (s.record now i tenant c).row j = s.row j := rfl

omit [Recorded ρ σ] in
@[simp] theorem rows_record (i tenant : Nat) (c : ChangeKind × Option σ × Option σ) :
    (s.record now i tenant c).rows = s.rows := rfl

variable {i : Nat} {r : ρ}

theorem id_of_row (h : s.row i = some r) : rowId r = i := by
  simpa using List.find?_some h

theorem mem_of_row (h : s.row i = some r) : r ∈ s.rows :=
  List.mem_of_find?_eq_some h

theorem row_of_mem (hids : (s.rows.map (fun r => rowId r)).Nodup) (h : r ∈ s.rows) :
    s.row (rowId r) = some r := by
  obtain ⟨x, hx⟩ : ∃ x, s.row (rowId r) = some x := by
    rw [← Option.isSome_iff_exists, row, List.find?_isSome]
    exact ⟨r, h, by simp⟩
  have heq : x = r := List.inj_on_of_nodup_map hids (mem_of_row hx) h (id_of_row hx)
  exact heq ▸ hx

theorem row_put : (s.put r).row i = if rowId r = i then (s.row i).map fun _ => r else s.row i := by
  have hid : ∀ x, rowId (if rowId x = rowId r then r else x) = rowId x := by
    intro x
    split
    · rename_i hx
      exact hx.symm
    · rfl
  show (s.rows.map _).find? _ = _
  rw [List.find?_map]
  simp only [Function.comp_def, hid]
  rcases hrow : s.row i with _ | x
  · rw [show s.rows.find? (fun x => rowId x = i) = none from hrow]
    split <;> rfl
  · rw [show s.rows.find? (fun x => rowId x = i) = some x from hrow, Option.map_some, id_of_row hrow]
    by_cases hi : rowId r = i
    · rw [if_pos hi.symm, if_pos hi, Option.map_some]
    · rw [if_neg (Ne.symm hi), if_neg hi]

theorem row_erase {j : Nat} : (s.erase i).row j = if i = j then none else s.row j := by
  unfold row erase
  simp only [List.find?_filter]
  by_cases hij : i = j
  · simp [hij, List.find?_eq_none]
  · rw [if_neg hij]
    congr 1
    funext r
    by_cases hr : rowId r = j
    · simp [hr, Ne.symm hij]
    · simp [hr]

variable {w : Write ρ}

theorem row_write (h : w.Fits s) (i : Nat) :
    (s.write now w).row i = if w.target = i then w.new else s.row i := by
  have hput : ∀ {old new : ρ}, s.row (rowId old) = some old → rowId new = rowId old →
      (s.put new).row i = if rowId old = i then some new else s.row i := by
    intro old new hold hid
    rw [row_put, hid]
    split
    · rename_i hi
      rw [← hi, hold, Option.map_some]
    · rfl
  cases w with
  | insert new =>
    have hnone : s.row (rowId new) = none := h.old
    show ((s.rows ++ [new]).find? fun r => rowId r = i) = _
    rw [List.find?_append]
    show (s.row i).or _ = if rowId new = i then some new else s.row i
    by_cases hi : rowId new = i
    · rw [if_pos hi, ← hi, hnone]
      simp
    · rw [if_neg hi]
      simp [hi]
  | sight old new | update old new | retire old new => exact hput h.old (h.new new rfl)
  | remove old | cascade old => exact row_erase

theorem fits_write {w' : Write ρ} (h : w.Fits s) (h' : w'.Fits s) (hne : w.target ≠ w'.target) :
    w'.Fits (s.write now w) :=
  ⟨by rw [row_write h, if_neg hne, h'.old], h'.new⟩

/-- After writes that fit, to different rows, a row is what the write to it left. -/
theorem row_writeAll {ws : List (Write ρ)} (hfits : ∀ w ∈ ws, w.Fits s)
    (hids : (ws.map Write.target).Nodup) (i : Nat) :
    (s.writeAll now ws).row i =
      match ws.find? (fun w => w.target = i) with
      | some w => w.new
      | none => s.row i := by
  induction ws generalizing s with
  | nil => rfl
  | cons w ws ih =>
    obtain ⟨hw, hws⟩ := List.forall_mem_cons.mp hfits
    obtain ⟨hnot, hnd⟩ := List.nodup_cons.mp hids
    have hstep : (s.writeAll now (w :: ws)).row i = ((s.write now w).writeAll now ws).row i := rfl
    rw [hstep, ih (fun w' hw' => fits_write hw (hws w' hw') fun heq =>
      hnot (heq ▸ List.mem_map_of_mem hw')) hnd, List.find?_cons]
    by_cases hi : w.target = i
    · have hnone : ws.find? (fun w' => w'.target = i) = none := by
        rw [List.find?_eq_none]
        intro w' hw'
        have hne : w'.target ≠ i := fun h => hnot (hi ▸ h ▸ List.mem_map_of_mem hw')
        simpa using hne
      simp only [hnone, hi, decide_true, row_write hw, if_true]
    · simp only [hi, decide_false, row_write hw, if_false]

/-! ## Which rows there are -/

theorem map_rowId_put (r : ρ) : (s.put r).rows.map (fun x => rowId x) = s.rows.map fun x => rowId x := by
  show (s.rows.map _).map _ = _
  rw [List.map_map]
  refine List.map_congr_left fun x _ => ?_
  show rowId (if rowId x = rowId r then r else x) = rowId x
  split
  · rename_i hx
    exact hx.symm
  · rfl

theorem mem_rows_write (hnew : ∀ r ∈ w.new, rowId r = w.target) (h : r ∈ (s.write now w).rows) :
    (r ∈ s.rows ∧ (w.old.isSome → w.target ≠ rowId r)) ∨ w.new = some r := by
  have hput : ∀ {old new : ρ}, rowId new = rowId old → r ∈ (s.put new).rows →
      (r ∈ s.rows ∧ rowId old ≠ rowId r) ∨ new = r := by
    intro old new hid hr
    obtain ⟨x, hx, hxr⟩ := List.mem_map.mp hr
    split at hxr
    · exact .inr hxr
    · rename_i hne
      subst hxr
      exact .inl ⟨hx, fun heq => hne (heq.symm.trans hid.symm)⟩
  have herase : ∀ {old : ρ}, r ∈ (s.erase (rowId old)).rows → r ∈ s.rows ∧ rowId old ≠ rowId r := by
    intro old hr
    obtain ⟨hr, hne⟩ := List.mem_filter.mp hr
    exact ⟨hr, fun heq => of_decide_eq_true hne heq.symm⟩
  cases w with
  | insert new =>
    rcases List.mem_append.mp h with h | h
    · exact .inl ⟨h, fun hold => (by cases hold)⟩
    · exact .inr (congrArg some (List.mem_singleton.mp h).symm)
  | sight old new | update old new | retire old new =>
      exact (hput (hnew new rfl) h).imp (And.imp_right fun h _ => h) (congrArg some)
  | remove old | cascade old => exact .inl ((herase h).imp_right fun h _ => h)

theorem mem_rows_writeAll {ws : List (Write ρ)} (hnew : ∀ w ∈ ws, ∀ r ∈ w.new, rowId r = w.target)
    (h : r ∈ (s.writeAll now ws).rows) :
    (r ∈ s.rows ∧ ∀ w ∈ ws, w.old.isSome → w.target ≠ rowId r) ∨ ∃ w ∈ ws, w.new = some r := by
  induction ws generalizing s with
  | nil => exact .inl ⟨h, fun w hw => by cases hw⟩
  | cons w ws ih =>
    obtain ⟨hw, hws⟩ := List.forall_mem_cons.mp hnew
    rcases ih hws h with ⟨hr, hlater⟩ | ⟨w', hw', hr⟩
    · rcases mem_rows_write hw hr with ⟨hr, hfirst⟩ | hr
      · exact .inl ⟨hr, List.forall_mem_cons.mpr ⟨hfirst, hlater⟩⟩
      · exact .inr ⟨w, List.mem_cons_self, hr⟩
    · exact .inr ⟨w', List.mem_cons_of_mem _ hw', hr⟩

/-- Writes that remove nothing keep the ids and add those of the new rows. -/
theorem map_rowId_writeAll {ws : List (Write ρ)} (hkeep : ∀ w ∈ ws, w.new.isSome) :
    (s.writeAll now ws).rows.map (fun r => rowId r) =
      s.rows.map (fun r => rowId r) ++ (ws.filter (·.old.isNone)).map Write.target := by
  induction ws generalizing s with
  | nil => exact (List.append_nil _).symm
  | cons w ws ih =>
    obtain ⟨hw, hws⟩ := List.forall_mem_cons.mp hkeep
    show ((s.write now w).writeAll now ws).rows.map _ = _
    rw [ih hws]
    cases w with
    | insert new =>
      show (s.rows ++ [new]).map _ ++ _ = _
      rw [List.map_append, List.append_assoc]
      rfl
    | sight old new => exact congrArg (· ++ _) (map_rowId_put new)
    | update old new => exact congrArg (· ++ _) (map_rowId_put new)
    | retire old new => exact congrArg (· ++ _) (map_rowId_put new)
    | remove old => cases hw
    | cascade old => cases hw

/-! ## Writes of rows that were read -/

end Store

/-- Every write but an insert starts from a row of the store, no two from the same. -/
structure Batch (s : Store ρ σ) (ws : List (Write ρ)) : Prop where
  old : ∀ w ∈ ws, ∀ r ∈ w.old, r ∈ s.rows
  new : ∀ w ∈ ws, ∀ r ∈ w.new, rowId r = w.target
  once : (ws.filterMap Write.touched).Nodup

namespace Batch
variable {s : Store ρ σ} {ws : List (Write ρ)}

/-- Writes under different keys of the rows are to different rows. -/
theorem once_of_keys {κ : Type} (key : ρ → κ) {keyed : List (κ × Write ρ)}
    (hids : (s.rows.map (fun r => rowId r)).Nodup) (hkeys : (keyed.map Prod.fst).Nodup)
    (hold : ∀ e ∈ keyed, ∀ r ∈ e.2.old, r ∈ s.rows ∧ key r = e.1) :
    ((keyed.map Prod.snd).filterMap Write.touched).Nodup := by
  refine List.pairwise_filterMap.mpr (List.pairwise_map.mpr ?_)
  refine (List.pairwise_map.mp hkeys).imp_of_mem ?_
  rintro e e' he he' hne _ hi _ hj rfl
  obtain ⟨r, hr, hri⟩ := Option.map_eq_some_iff.mp hi
  obtain ⟨r', hr', hrj⟩ := Option.map_eq_some_iff.mp hj
  obtain ⟨hmem, hk⟩ := hold e he r hr
  obtain ⟨hmem', hk'⟩ := hold e' he' r' hr'
  have heq : r = r' := List.inj_on_of_nodup_map hids hmem hmem' (hri.trans hrj.symm)
  exact hne (hk.symm.trans (heq ▸ hk'))

theorem inserted_or_touched (w : Write ρ) :
    w.inserted = some w.target ∨ w.touched = some w.target := by
  cases w with
  | insert new => exact .inl rfl
  | sight old new | update old new | retire old new | remove old | cascade old => exact .inr rfl

section
variable (h : Batch s ws) (hids : (s.rows.map (fun r => rowId r)).Nodup) (hacc : s.Accepts ws)
include h hids hacc

theorem fits : ∀ w ∈ ws, w.Fits s := by
  intro w hw
  refine ⟨?_, h.new w hw⟩
  have hold : ∀ r, w.old = some r → w.target = rowId r → s.row w.target = w.old := by
    intro r hr ht
    rw [ht, hr]
    exact Store.row_of_mem hids (h.old w hw r hr)
  cases w with
  | insert new =>
    exact Option.isNone_iff_eq_none.mp (hacc.2 _ (List.mem_filterMap.mpr ⟨_, hw, rfl⟩))
  | sight old new | update old new | retire old new | remove old | cascade old =>
      exact hold old rfl rfl

theorem targets_nodup : (ws.map Write.target).Nodup := by
  have hins := List.pairwise_filterMap.mp hacc.1
  have htouch := List.pairwise_filterMap.mp h.once
  -- A row that is added is not one that was there.
  have hnew : ∀ w ∈ ws, ∀ w' ∈ ws, w.inserted = some w.target → w'.touched = some w'.target →
      w.target ≠ w'.target := by
    intro w hw w' hw' hi ht heq
    obtain ⟨r, hr, hrt⟩ := Option.map_eq_some_iff.mp ht
    have hnone := hacc.2 _ (List.mem_filterMap.mpr ⟨w, hw, hi⟩)
    rw [heq, ← hrt, Store.row_of_mem hids (h.old w' hw' r hr)] at hnone
    cases hnone
  refine List.pairwise_map.mpr ((hins.and htouch).imp_of_mem ?_)
  rintro w w' hw hw' ⟨hii, htt⟩
  rcases inserted_or_touched w with hw₁ | hw₁ <;> rcases inserted_or_touched w' with hw₂ | hw₂
  · exact hii _ hw₁ _ hw₂
  · exact hnew w hw w' hw' hw₁ hw₂
  · exact (hnew w' hw' w hw hw₂ hw₁).symm
  · exact htt _ hw₁ _ hw₂

end

section After
variable (h : Batch s ws) (hids : (s.rows.map (fun r => rowId r)).Nodup) (hacc : s.Accepts ws)
  (now : Int)
include h hids hacc

/-- After the writes, a row that was written is what its write left. -/
theorem row_target {w : Write ρ} (hw : w ∈ ws) : (s.writeAll now ws).row w.target = w.new := by
  rw [Store.row_writeAll (h.fits hids hacc) (h.targets_nodup hids hacc)]
  obtain ⟨w', hw'⟩ : ∃ w', ws.find? (fun w' => w'.target = w.target) = some w' := by
    rw [← Option.isSome_iff_exists, List.find?_isSome]
    exact ⟨w, hw, by simp⟩
  have heq : w' = w := List.inj_on_of_nodup_map (h.targets_nodup hids hacc)
    (List.mem_of_find?_eq_some hw') hw (by simpa using List.find?_some hw')
  rw [hw', heq]

/-- Every other row is as it was. -/
theorem row_other {i : Nat} (hi : ∀ w ∈ ws, w.target ≠ i) : (s.writeAll now ws).row i = s.row i := by
  rw [Store.row_writeAll (h.fits hids hacc) (h.targets_nodup hids hacc)]
  have hnone : ws.find? (fun w => w.target = i) = none := by
    rw [List.find?_eq_none]
    intro w hw
    simpa using hi w hw
  rw [hnone]

/-- A row afterwards was written, or was there and was not. -/
theorem row_cases (i : Nat) :
    (∃ w ∈ ws, w.target = i ∧ (s.writeAll now ws).row i = w.new) ∨
      (∀ w ∈ ws, w.target ≠ i) ∧ (s.writeAll now ws).row i = s.row i := by
  by_cases hi : ∃ w ∈ ws, w.target = i
  · obtain ⟨w, hw, rfl⟩ := hi
    exact .inl ⟨w, hw, rfl, h.row_target hids hacc now hw⟩
  · have hno : ∀ w ∈ ws, w.target ≠ i := fun w hw heq => hi ⟨w, hw, heq⟩
    exact .inr ⟨hno, h.row_other hids hacc now hno⟩

/-- A row that was there was written, or still is there. -/
theorem old_cases {r : ρ} (hr : r ∈ s.rows) :
    (∃ w ∈ ws, w.old = some r ∧ ∀ r' ∈ w.new, r' ∈ (s.writeAll now ws).rows) ∨
      r ∈ (s.writeAll now ws).rows ∧ ∀ w ∈ ws, w.target ≠ rowId r := by
  have hrow := Store.row_of_mem hids hr
  rcases h.row_cases hids hacc now (rowId r) with ⟨w, hw, ht, hnew⟩ | ⟨hno, hsame⟩
  · refine .inl ⟨w, hw, ?_, fun r' hr' => Store.mem_of_row (hnew.trans hr')⟩
    have hfit := (h.fits hids hacc w hw).old
    rw [ht, hrow] at hfit
    exact hfit.symm
  · exact .inr ⟨Store.mem_of_row (hsame.trans hrow), hno⟩

/-- What a write leaves is there. -/
theorem mem_of_new {w : Write ρ} (hw : w ∈ ws) {r : ρ} (hr : w.new = some r) :
    r ∈ (s.writeAll now ws).rows :=
  Store.mem_of_row ((h.row_target hids hacc now hw).trans hr)

end After
end Batch
end Meho.Lib.Journal
