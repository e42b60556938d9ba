import Meho.Redaction.DefaultView

/- What the audit copy of an answer shows (operations/_secret_values.py, operations/dispatcher.py).

The copy of an answer has a fingerprint where the default view shows something else, and is the
view everywhere else. So two answers with one view have one copy but for fingerprints. Where an
answer already reads what the view puts in a value's place, its copy reads that and has no
fingerprint.

`copy_step` is one step down the answer and its view, `copy_leaf` and `copies_differ` follow
along paths. -/
namespace Meho.Redaction

/-! ## One answer -/

section Copy
variable (tools : RedactionTools)

def IsFingerprint (v : Json) : Prop := ∃ value, v = fingerprintValue tools value

/-- A text, a number, a flag, a null, `{}` or `[]`. -/
def Childless (v : Json) : Prop := hull v = v

variable {v : Json}

theorem child_childless (h : Childless v) (s : Step) : child v s = none := by
  cases v with
  | obj fields =>
    obtain rfl := Json.obj.inj h
    cases s <;> rfl
  | arr items =>
    obtain rfl := Json.arr.inj h
    cases s <;> rfl
  | null | bool | int | float | str => cases s <;> rfl

variable {w : Json}

theorem SameNode.eq_of_childless (h : SameNode v w) (hv : Childless v) : w = v := by
  have hnone : ∀ s, child w s = none := by
    intro s
    have hs := h.2 s
    rw [child_childless hv, Option.isSome_none] at hs
    exact Option.isSome_eq_false_iff.mp hs.symm |> Option.isNone_iff_eq_none.mp
  have hhull : hull w = v := h.1.symm.trans hv
  cases w with
  | obj fields =>
    cases fields with
    | nil => exact hhull
    | cons entry fields =>
      have hfirst := hnone (.key entry.1)
      simp [child, dictGet] at hfirst
  | arr items =>
    cases items with
    | nil => exact hhull
    | cons item items =>
      have hfirst := hnone (.index 0)
      simp [child] at hfirst
  | null | bool | int | float | str => exact hhull

theorem childless_of_isLeaf (h : isLeaf v = true) : Childless v := by
  cases v with
  | obj | arr => cases h
  | null | bool | int | float | str => rfl

theorem valueAt_leaf (h : isLeaf v = true) (s : Step) (path : List Step) :
    valueAt v (s :: path) = none :=
  valueAt_of_none (child_childless (childless_of_isLeaf h) s) path

theorem IsText.isLeaf (h : IsText v) : isLeaf v = true := by
  obtain ⟨text, rfl⟩ := h
  rfl

theorem sameScalar_text (h : IsText v) : sameScalar v v = true := by
  obtain ⟨text, rfl⟩ := h
  simp [sameScalar]

/-- Only NaN is not equal to itself. -/
theorem sameScalar_self (h : isLeaf v = true) (hnan : v ≠ .float "nan") : sameScalar v v = true := by
  cases v <;> simp_all [sameScalar, isLeaf]

theorem eq_of_sameScalar (h : sameScalar v w = true) : v = w := by
  cases v <;> cases w <;> simp_all [sameScalar]

theorem dictGet_fingerprintFields (shown fields : Dict) (name : String) :
    dictGet (fingerprintFields tools shown fields) name =
      (dictGet fields name).map fun value =>
        fingerprintHiddenValues tools value (dictGet shown name) := by
  induction fields with
  | nil => rfl
  | cons entry fields ih =>
    obtain ⟨key, value⟩ := entry
    rw [fingerprintFields, dictGet_cons, dictGet_cons, ih]
    by_cases hkey : key = name
    · rw [if_pos hkey, if_pos hkey, hkey, Option.map_some]
    · rw [if_neg hkey, if_neg hkey]

theorem getElem?_fingerprintItems (items shown : List Json) (i : Nat) {item other : Json}
    (hitem : items[i]? = some item) (hother : shown[i]? = some other) :
    (fingerprintItems tools items shown)[i]? =
      some (fingerprintHiddenValues tools item (some other)) := by
  induction items generalizing shown i with
  | nil => cases hitem
  | cons first items ih =>
    cases shown with
    | nil => cases hother
    | cons second shown =>
      cases i with
      | zero =>
        obtain rfl := Option.some.inj hitem
        obtain rfl := Option.some.inj hother
        rfl
      | succ i => exact ih shown i hitem hother

theorem fingerprintItems_length (items shown : List Json) (h : items.length = shown.length) :
    (fingerprintItems tools items shown).length = shown.length := by
  induction items generalizing shown with
  | nil => simpa [fingerprintItems] using h
  | cons item items ih =>
    cases shown with
    | nil => cases h
    | cons other shown =>
      simp only [fingerprintItems, List.length_cons, ih shown (Nat.succ.inj h)]

variable {raw shown : Json}

theorem copy_of_leaf (h : isLeaf shown = true) :
    fingerprintHiddenValues tools raw (some shown) =
      if sameScalar raw shown then raw else fingerprintValue tools raw := by
  cases raw <;> cases shown <;> first | rfl | cases h

/-- One step down: the copy is of the view's shape with copies inside, or a fingerprint in the
place of a leaf. -/
def CopyStep (raw shown : Json) : Prop :=
  (SameNode (fingerprintHiddenValues tools raw (some shown)) shown ∧
    ∀ s w, child shown s = some w → ∃ v, child raw s = some v ∧
      child (fingerprintHiddenValues tools raw (some shown)) s =
        some (fingerprintHiddenValues tools v (some w))) ∨
  (IsFingerprint tools (fingerprintHiddenValues tools raw (some shown)) ∧ isLeaf shown = true)

theorem copy_step_leaf (hleaf : isLeaf shown = true) : CopyStep tools raw shown := by
  have hnone : ∀ s w, child shown s ≠ some w := by
    intro s w hw
    cases shown <;> cases s <;> first | cases hw | cases hleaf
  unfold CopyStep
  rw [copy_of_leaf tools hleaf]
  by_cases hsame : sameScalar raw shown = true
  · rw [if_pos hsame, eq_of_sameScalar hsame]
    exact .inl ⟨.refl shown, fun s w hw => absurd hw (hnone s w)⟩
  · rw [if_neg hsame]
    exact .inr ⟨⟨raw, rfl⟩, hleaf⟩

theorem copy_step (h : Keeps AnyValue raw shown) : CopyStep tools raw shown := by
  rcases h.here with hnode | ⟨-, htext⟩
  · cases shown with
    | obj shown =>
      cases raw with
      | obj fields =>
        left
        have hget := dictGet_fingerprintFields tools shown fields
        refine ⟨sameNode_obj fun name => ?_, fun s w hw => ?_⟩
        · rw [hget, Option.isSome_map]
          exact hnode.2 (.key name)
        · cases s with
          | index i => cases hw
          | key name =>
            have hsome := hnode.2 (.key name)
            rw [hw, Option.isSome_some] at hsome
            obtain ⟨v, hv⟩ := Option.isSome_iff_exists.mp hsome
            refine ⟨v, hv, ?_⟩
            simp only [child] at hv hw
            simp only [fingerprintHiddenValues, child, hget, hv, hw, Option.map_some]
      | arr | null | bool | int | float | str => cases hnode.1
    | arr shown =>
      cases raw with
      | arr items =>
        have hlen := hnode.length
        unfold CopyStep
        simp only [fingerprintHiddenValues, if_pos hlen]
        left
        refine ⟨sameNode_arr (fingerprintItems_length tools items shown hlen), fun s w hw => ?_⟩
        cases s with
        | key name => cases hw
        | index i =>
          have hsome := hnode.2 (.index i)
          rw [hw, Option.isSome_some] at hsome
          obtain ⟨v, hv⟩ := Option.isSome_iff_exists.mp hsome
          exact ⟨v, hv, getElem?_fingerprintItems tools items shown i hv hw⟩
      | obj | null | bool | int | float | str => cases hnode.1
    | null | bool | int | float | str => exact copy_step_leaf tools rfl
  · exact copy_step_leaf tools (IsText.isLeaf htext)

theorem copy_leaf (h : Keeps AnyValue raw shown) {path : List Step} {leaf : Json}
    (hat : valueAt (fingerprintHiddenValues tools raw (some shown)) path = some leaf)
    (hleaf : Childless leaf) : IsFingerprint tools leaf ∨ valueAt shown path = some leaf := by
  induction path generalizing raw shown with
  | nil =>
    obtain rfl := Option.some.inj hat
    rcases copy_step tools h with ⟨hnode, -⟩ | ⟨hprint, -⟩
    · right
      exact congrArg some (hnode.eq_of_childless hleaf)
    · exact .inl hprint
  | cons s path ih =>
    obtain ⟨inner, hinner, hat⟩ := valueAt_cons.mp hat
    rcases copy_step tools h with ⟨hnode, hinside⟩ | ⟨⟨value, hprint⟩, -⟩
    · have hsome := hnode.2 s
      rw [hinner, Option.isSome_some] at hsome
      obtain ⟨w, hw⟩ := Option.isSome_iff_exists.mp hsome.symm
      obtain ⟨v, hv, hcopy⟩ := hinside s w hw
      rw [hinner] at hcopy
      obtain rfl := Option.some.inj hcopy
      rcases ih (h.inside hv hw) hat with hprint | hshown
      · exact .inl hprint
      · exact .inr (valueAt_cons.mpr ⟨w, hw, hshown⟩)
    · rw [hprint, fingerprintValue, child_str] at hinner
      cases hinner

/-! ## Two answers -/

/-- Equal but for the order of keys. -/
def SameJson (a b : Json) : Prop :=
  ∀ path, Option.Rel (fun v w => hull v = hull w) (valueAt a path) (valueAt b path)

/-- Two copies of answers with one view: of one shape, and where they differ one has a fingerprint
and the other a fingerprint as well or what the view shows. -/
def DifferInFingerprints (shown copy copy' : Json) : Prop :=
  ∀ path, Option.Rel (fun v w => hull v = hull w ∨
      (IsFingerprint tools v ∧ (IsFingerprint tools w ∨ valueAt shown path = some w)) ∨
      (IsFingerprint tools w ∧ valueAt shown path = some v))
    (valueAt copy path) (valueAt copy' path)

variable {tools}

variable {a b : Json}

theorem SameJson.inside (h : SameJson a b) {s : Step} (hv : child a s = some v)
    (hw : child b s = some w) : SameJson v w := by
  intro path
  have hpath := h (s :: path)
  rwa [valueAt, valueAt, hv, hw] at hpath

theorem SameJson.child_isSome (h : SameJson a b) (s : Step) :
    (child a s).isSome = (child b s).isSome := by
  have hpath := h [s]
  simp only [valueAt] at hpath
  cases ha : child a s with
  | none =>
    cases hb : child b s with
    | none => rfl
    | some w => rw [ha, hb] at hpath; cases hpath
  | some v =>
    cases hb : child b s with
    | none => rw [ha, hb] at hpath; cases hpath
    | some w => rfl

theorem IsFingerprint.valueAt_cons (h : IsFingerprint tools v) (s : Step) (path : List Step) :
    valueAt v (s :: path) = none := by
  obtain ⟨value, rfl⟩ := h
  rw [fingerprintValue, valueAt_str, if_neg (List.cons_ne_nil s path)]

theorem SameNode.leaf {copy : Json} (h : SameNode copy shown) (hleaf : isLeaf shown = true) :
    copy = shown :=
  h.symm.eq_of_childless (childless_of_isLeaf hleaf)

theorem SameJson.leaf (h : SameJson a b) (hleaf : isLeaf b = true) : a = b := by
  have hroot := h []
  cases hroot with
  | some hhull =>
    cases b with
    | obj | arr => cases hleaf
    | null | bool | int | float | str =>
      cases a with
      | obj | arr => cases hhull
      | null | bool | int | float | str => exact hhull

theorem SameJson.symm (h : SameJson a b) : SameJson b a := by
  intro path
  have hpath := h path
  cases ha : valueAt a path with
  | none =>
    cases hb : valueAt b path with
    | none => exact .none
    | some w => rw [ha, hb] at hpath; cases hpath
  | some v =>
    cases hb : valueAt b path with
    | none => rw [ha, hb] at hpath; cases hpath
    | some w =>
      rw [ha, hb] at hpath
      cases hpath with | some hhull => exact .some hhull.symm

theorem copies_differ {raw' shown' : Json} (h : Keeps AnyValue raw shown)
    (h' : Keeps AnyValue raw' shown') (hsame : SameJson shown shown') :
    DifferInFingerprints tools shown (fingerprintHiddenValues tools raw (some shown))
      (fingerprintHiddenValues tools raw' (some shown')) := by
  intro path
  induction path generalizing raw raw' shown shown' with
  | nil =>
    -- at the root: both are shown, or one of them is a fingerprint
    refine .some ?_
    rcases copy_step tools h with ⟨hnode, -⟩ | ⟨hprint, hleaf⟩
    · rcases copy_step tools h' with ⟨hnode', -⟩ | ⟨hprint', hleaf'⟩
      · left
        have hroot := hsame []
        cases hroot with | some hhull => exact hnode.1.trans (hhull.trans hnode'.1.symm)
      · right; right
        have hshown := hsame.leaf hleaf'
        refine ⟨hprint', congrArg some ?_⟩
        rw [hnode.leaf (hshown ▸ hleaf')]
    · right; left
      refine ⟨hprint, ?_⟩
      rcases copy_step tools h' with ⟨hnode', -⟩ | ⟨hprint', -⟩
      · right
        have hshown := hsame.symm.leaf hleaf
        refine congrArg some ?_
        rw [hnode'.leaf (hshown ▸ hleaf), hshown]
      · exact .inl hprint'
  | cons s path ih =>
    rcases copy_step tools h with ⟨hnode, hinside⟩ | ⟨hprint, hleaf⟩
    · rcases copy_step tools h' with ⟨hnode', hinside'⟩ | ⟨hprint', hleaf'⟩
      · cases hs : child shown s with
        | none =>
          -- both shown texts have the same children, so the copies end together
          have hnone := hnode.2 s
          have hnone' := (hnode'.2 s).trans (hsame.child_isSome s).symm
          rw [hs, Option.isSome_none, Option.isSome_eq_false_iff, Option.isNone_iff_eq_none]
            at hnone hnone'
          rw [valueAt_of_none hnone, valueAt_of_none hnone']
          exact .none
        | some w =>
          have hsome := (hsame.child_isSome s).symm
          rw [hs, Option.isSome_some] at hsome
          obtain ⟨w', hs'⟩ := Option.isSome_iff_exists.mp hsome
          obtain ⟨v, hv, hcopy⟩ := hinside s w hs
          obtain ⟨v', hv', hcopy'⟩ := hinside' s w' hs'
          have hrest := ih (h.inside hv hs) (h'.inside hv' hs') (hsame.inside hs hs')
          rw [valueAt_of_some hcopy, valueAt_of_some hcopy', valueAt_of_some hs]
          exact hrest
      · have hshown := hsame.leaf hleaf'
        have hcopy := hnode.leaf (hshown ▸ hleaf')
        rw [hprint'.valueAt_cons, hcopy, hshown, valueAt_leaf hleaf']
        exact .none
    · have hshown := hsame.symm.leaf hleaf
      rw [hprint.valueAt_cons]
      rcases copy_step tools h' with ⟨hnode', -⟩ | ⟨hprint', -⟩
      · rw [hnode'.leaf (hshown ▸ hleaf), hshown, valueAt_leaf hleaf]
        exact .none
      · rw [hprint'.valueAt_cons]
        exact .none

end Copy

/-! ## The copies of answers -/

/-- The copy of an answer, against its default view. -/
theorem audit_copy_shows_view (tools : RedactionTools) (htools : KeepsShape tools)
    (registry : PolicyRegistry) (call : DispatchedCall) (raw shown : Json)
    (hview : IsDefaultView registry call raw tools shown) :
    (∀ path leaf, valueAt (fingerprintHiddenValues tools raw (some shown)) path = some leaf →
      Childless leaf → IsFingerprint tools leaf ∨ valueAt shown path = some leaf) ∧
    ∀ (registry' : PolicyRegistry) (call' : DispatchedCall) (raw' shown' : Json),
      IsDefaultView registry' call' raw' tools shown' → SameJson shown shown' →
      DifferInFingerprints tools shown (fingerprintHiddenValues tools raw (some shown))
        (fingerprintHiddenValues tools raw' (some shown')) := by
  have hkeeps := view_keeps_raw htools registry call raw hview
  constructor
  · intro path leaf hat hleaf
    exact copy_leaf tools hkeeps hat hleaf
  · intro registry' call' raw' shown' hview' hsame
    exact copies_differ hkeeps (view_keeps_raw htools registry' call' raw' hview') hsame

theorem sampleTools_keepsShape : KeepsShape sampleTools where
  tier2 _ _ node := .refl IsText node

/-- A token in a pod's log. -/
theorem audit_copy_shows_view_log :
    let raw : Json := .obj [("name", .str "web"), ("log", .str sampleJwt)]
    let shown : Json := .obj [("name", .str "web"), ("log", .str "[REDACTED:jwt]")]
    (∀ path leaf, valueAt (fingerprintHiddenValues sampleTools raw (some shown)) path = some leaf →
      Childless leaf → IsFingerprint sampleTools leaf ∨ valueAt shown path = some leaf) ∧
    ∀ (registry' : PolicyRegistry) (call' : DispatchedCall) (raw' shown' : Json),
      IsDefaultView registry' call' raw' sampleTools shown' → SameJson shown shown' →
      DifferInFingerprints sampleTools shown (fingerprintHiddenValues sampleTools raw (some shown))
        (fingerprintHiddenValues sampleTools raw' (some shown')) :=
  audit_copy_shows_view sampleTools sampleTools_keepsShape ⟨[], stripJwt⟩ podCall
    (.obj [("name", .str "web"), ("log", .str sampleJwt)])
    (.obj [("name", .str "web"), ("log", .str "[REDACTED:jwt]")]) (by
      show _ = _
      rfl)

/-- A password that reads the marker, and any other password: the view shows the marker for both,
the copy a fingerprint for the second only. -/
theorem audit_copies_tell_marker :
    ¬ ∀ (tools : RedactionTools) (registry : PolicyRegistry) (call : DispatchedCall)
      (raw raw' shown : Json), KeepsShape tools → IsDefaultView registry call raw tools shown →
      IsDefaultView registry call raw' tools shown → ∀ path v w,
      valueAt (fingerprintHiddenValues tools raw (some shown)) path = some v →
      valueAt (fingerprintHiddenValues tools raw' (some shown)) path = some w →
      Childless v → Childless w → v = w ∨ (IsFingerprint tools v ∧ IsFingerprint tools w) := by
  intro h
  let raw : Json := .obj [("password", .str redactedParam)]
  let raw' : Json := .obj [("password", .str "hunter2")]
  have hcopies := h sampleTools ⟨[], stripJwt⟩ podCall raw raw' raw sampleTools_keepsShape
    (by show _ = _; rfl) (by show _ = _; rfl) [.key "password"]
    (.str redactedParam) (fingerprintValue sampleTools (.str "hunter2")) rfl rfl rfl rfl
  have hmarker : ¬ IsFingerprint sampleTools (.str redactedParam) := by
    rintro ⟨value, hvalue⟩
    have hchars := congrArg (fun text => text.toList[1]?) (Json.str.inj hvalue)
    simp [redactedParam, fingerprintPrefix] at hchars
  rcases hcopies with hsame | ⟨hprint, -⟩
  · exact hmarker ⟨_, hsame⟩
  · exact hmarker hprint

end Meho.Redaction
