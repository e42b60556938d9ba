import Meho.Redaction.CopyShows

/- The answer with the hidden values put back (operations/_secret_values.py).

A person who asks for the values of an answer gets its redaction with the raw value wherever the
default view hid one. The three trees are walked together; they fit each other down to where the
view hides something (`Keeps`), so the raw side as a whole is put in exactly there, and never
for a value that only the policy changed.

A position is a path to a leaf of the redacted answer. The view hid it when it does not show
there what the redacted answer has there (`Hid`), be it that leaf or something around it.

Correspondence: `reveal_hidden_values` ↔ `revealHiddenValues`; `type(a) is type(b) and a == b` ↔
`sameValue`, in which the equality of two maps or two lists is a parameter: the walk comes to
it only where the raw answer is of another shape. -/
namespace Meho.Redaction

section Reveal
variable (equalInside : Json → Json → Bool)

def sameValue (a b : Json) : Bool :=
  match a, b with
  | .obj _, .obj _ | .arr _, .arr _ => equalInside a b
  | _, _ => sameScalar a b

/-- `none` is a value that the tree does not have. -/
def revealLeaf (raw : Option Json) (redacted : Json) (shown : Option Json) : Json :=
  match raw, shown with
  | none, _ => redacted
  | some raw, none => raw
  | some raw, some shown => if sameValue equalInside redacted shown then redacted else raw

mutual
def revealHiddenValues (raw : Option Json) : Json → Option Json → Json
  | .obj redacted, shown =>
    match raw, shown with
    | some (.obj fields), some (.obj view) => .obj (revealFields fields view redacted)
    | _, _ => revealLeaf equalInside raw (.obj redacted) shown
  | .arr redacted, shown =>
    match raw, shown with
    | some (.arr items), some (.arr view) =>
      if items.length = redacted.length ∧ redacted.length = view.length then
        .arr (revealItems items view redacted)
      else revealLeaf equalInside raw (.arr redacted) shown
    | _, _ => revealLeaf equalInside raw (.arr redacted) shown
  | redacted, shown => revealLeaf equalInside raw redacted shown

def revealFields (fields view : Dict) : Dict → Dict
  | [] => []
  | (key, value) :: redacted =>
    (key, revealHiddenValues (dictGet fields key) value (dictGet view key)) ::
      revealFields fields view redacted

def revealItems : List Json → List Json → List Json → List Json
  | item :: items, other :: view, value :: redacted =>
    revealHiddenValues (some item) value (some other) :: revealItems items view redacted
  | _, _, _ => []
end

/-! ## One step down -/

theorem dictGet_revealFields (fields view redacted : Dict) (name : String) :
    dictGet (revealFields equalInside fields view redacted) name =
      (dictGet redacted name).map fun value =>
        revealHiddenValues equalInside (dictGet fields name) value (dictGet view name) := by
  induction redacted with
  | nil => rfl
  | cons entry redacted ih =>
    obtain ⟨key, value⟩ := entry
    rw [revealFields, dictGet_cons, dictGet_cons, ih]
    by_cases hkey : key = name
    · rw [if_pos hkey, if_pos hkey, hkey, Option.map_some]
    · rw [if_neg hkey, if_neg hkey]

theorem getElem?_revealItems {items view redacted : List Json} {i : Nat} {item other value : Json}
    (hitem : items[i]? = some item) (hother : view[i]? = some other)
    (hvalue : redacted[i]? = some value) :
    (revealItems equalInside items view redacted)[i]? =
      some (revealHiddenValues equalInside (some item) value (some other)) := by
  induction items generalizing view redacted i with
  | nil => cases hitem
  | cons first items ih =>
    cases view with
    | nil => cases hother
    | cons second view =>
      cases redacted with
      | nil => cases hvalue
      | cons third redacted =>
        cases i with
        | zero =>
          obtain rfl := Option.some.inj hitem
          obtain rfl := Option.some.inj hother
          obtain rfl := Option.some.inj hvalue
          rfl
        | succ i => exact ih hitem hother hvalue

theorem revealItems_length {items view redacted : List Json} (h : items.length = redacted.length)
    (h' : redacted.length = view.length) :
    (revealItems equalInside items view redacted).length = redacted.length := by
  induction items generalizing view redacted with
  | nil =>
    cases redacted with
    | nil => rfl
    | cons value redacted => cases h
  | cons item items ih =>
    cases redacted with
    | nil => cases h
    | cons value redacted =>
      cases view with
      | nil => cases h'
      | cons other view =>
        simp only [revealItems, List.length_cons, ih (Nat.succ.inj h) (Nat.succ.inj h')]

variable {raw redacted shown : Json}

/-- A leaf of the redacted answer, or a value hidden as a whole. -/
theorem reveal_leaf (h : isLeaf redacted = true ∨ isLeaf shown = true) :
    revealHiddenValues equalInside (some raw) redacted (some shown) =
      if sameScalar redacted shown then redacted else raw := by
  cases redacted <;> cases shown <;> first | (simp [isLeaf] at h; done) | (cases raw <;> rfl)

/-- One step down: the result is of the redacted answer's shape with results inside, or it is the
raw value where the view has a text that the redacted answer has not. -/
def RevealStep (raw redacted shown : Json) : Prop :=
  (SameNode redacted shown ∧
    SameNode (revealHiddenValues equalInside (some raw) redacted (some shown)) redacted ∧
    ∀ s value other, child redacted s = some value → child shown s = some other →
      ∃ v, child raw s = some v ∧
        child (revealHiddenValues equalInside (some raw) redacted (some shown)) s =
          some (revealHiddenValues equalInside (some v) value (some other))) ∨
  (IsText shown ∧ redacted ≠ shown ∧
    revealHiddenValues equalInside (some raw) redacted (some shown) = raw)

theorem reveal_step_leaf (hraw : Keeps IsText raw redacted) (hisLeaf : isLeaf shown = true)
    (h : redacted = shown ∨ IsText shown) : RevealStep equalInside raw redacted shown := by
  have hresult : revealHiddenValues equalInside (some raw) redacted (some shown) = _ :=
    reveal_leaf equalInside (.inr hisLeaf)
  by_cases hsame : sameScalar redacted shown = true
  · rw [if_pos hsame] at hresult
    have heq := eq_of_sameScalar hsame
    left
    refine ⟨heq ▸ .refl redacted, ?_, fun s value other hvalue => ?_⟩
    · rw [hresult]
      exact .refl redacted
    rw [heq] at hvalue
    cases shown <;> cases s <;> first | cases hvalue | cases hisLeaf
  · rw [if_neg hsame] at hresult
    rcases h with rfl | htext
    · -- NaN is put back from the raw answer, which has it too
      left
      obtain rfl : redacted = .float "nan" := by
        by_contra hnan
        exact hsame (sameScalar_self hisLeaf hnan)
      obtain hnode | ⟨-, text, htext⟩ := hraw.here
      · obtain rfl := hnode.symm.eq_of_childless rfl
        refine ⟨.refl _, ?_, fun s value other hvalue => ?_⟩
        · rw [hresult]
          exact .refl _
        · cases s <;> cases hvalue
      · cases htext
    · refine .inr ⟨htext, ?_, hresult⟩
      rintro rfl
      exact hsame (sameScalar_text htext)

theorem reveal_step (hraw : Keeps IsText raw redacted) (hshown : Keeps AnyValue redacted shown) :
    RevealStep equalInside raw redacted shown := by
  rcases hshown.here with hnode | ⟨-, htext⟩
  · cases shown with
    | null | bool | int | float | str =>
      exact reveal_step_leaf equalInside hraw rfl (.inl (hnode.symm.eq_of_childless rfl))
    | obj view =>
      cases redacted with
      | arr | null | bool | int | float | str => cases hnode.1
      | obj redacted =>
        rcases hraw.here with hrawNode | ⟨-, text, htext⟩
        · cases raw with
          | arr | null | bool | int | float | str => cases hrawNode.1
          | obj fields =>
            left
            -- the three values have the same fields, so the walk goes on in all of them at once
            have hget := dictGet_revealFields equalInside fields view redacted
            refine ⟨hnode, sameNode_obj fun name => ?_, fun s value other hvalue hother => ?_⟩
            · rw [hget, Option.isSome_map]
            · cases s with
              | index i => cases hvalue
              | key name =>
                have hsome := hrawNode.2 (.key name)
                rw [hvalue, Option.isSome_some] at hsome
                obtain ⟨v, hv⟩ := Option.isSome_iff_exists.mp hsome
                refine ⟨v, hv, ?_⟩
                simp only [child] at hv hvalue hother
                simp only [revealHiddenValues, child, hget, hv, hvalue, hother, Option.map_some]
        · cases htext
    | arr view =>
      cases redacted with
      | obj | null | bool | int | float | str => cases hnode.1
      | arr redacted =>
        rcases hraw.here with hrawNode | ⟨-, text, htext⟩
        · cases raw with
          | obj | null | bool | int | float | str => cases hrawNode.1
          | arr items =>
            have hlen := hrawNode.length
            have hlen' := hnode.length
            -- lists of one length are walked by position
            have hwalk : revealHiddenValues equalInside (some (.arr items)) (.arr redacted)
                (some (.arr view)) = .arr (revealItems equalInside items view redacted) := by
              simp only [revealHiddenValues, if_pos (And.intro hlen hlen')]
            unfold RevealStep
            rw [hwalk]
            left
            refine ⟨hnode, sameNode_arr (revealItems_length equalInside hlen hlen'), ?_⟩
            intro s value other hvalue hother
            cases s with
            | key name => cases hvalue
            | index i =>
              have hsome := hrawNode.2 (.index i)
              rw [hvalue, Option.isSome_some] at hsome
              obtain ⟨v, hv⟩ := Option.isSome_iff_exists.mp hsome
              exact ⟨v, hv, getElem?_revealItems equalInside hv hother hvalue⟩
        · cases htext
  · exact reveal_step_leaf equalInside hraw (IsText.isLeaf htext) (.inr htext)

/-! ## Positions -/

/-- The default view does not show at a position what the redacted answer has there. -/
def Hid (redacted shown : Json) (path : List Step) : Prop :=
  valueAt shown path ≠ valueAt redacted path

section
variable (hraw : Keeps IsText raw redacted) (hshown : Keeps AnyValue redacted shown)
include hraw hshown

theorem reveal_at {path : List Step} {leaf : Json} (hat : valueAt redacted path = some leaf)
    (hleaf : Childless leaf) :
    (Hid redacted shown path →
      valueAt (revealHiddenValues equalInside (some raw) redacted (some shown)) path =
        valueAt raw path) ∧
    (¬ Hid redacted shown path →
      valueAt (revealHiddenValues equalInside (some raw) redacted (some shown)) path =
        valueAt redacted path) := by
  induction path generalizing raw redacted shown with
  | nil =>
    obtain rfl := Option.some.inj hat
    rcases reveal_step equalInside hraw hshown with ⟨hnode, hresult, -⟩ | ⟨-, hne, hresult⟩
    · have hsame := hnode.eq_of_childless hleaf
      have heq := hresult.symm.eq_of_childless hleaf
      refine ⟨fun hhid => absurd ?_ hhid, fun _ => ?_⟩
      · rw [hsame]
      · rw [heq]
    · rw [hresult]
      refine ⟨fun _ => rfl, fun hnot => absurd ?_ hnot⟩
      exact fun heq => hne (Option.some.inj heq).symm
  | cons s path ih =>
    obtain ⟨value, hvalue, hat'⟩ := valueAt_cons.mp hat
    rcases reveal_step equalInside hraw hshown with ⟨hnode, -, hinside⟩ | ⟨htext, -, hresult⟩
    · have hsome := hnode.2 s
      rw [hvalue, Option.isSome_some] at hsome
      obtain ⟨other, hother⟩ := Option.isSome_iff_exists.mp hsome.symm
      obtain ⟨v, hv, hchild⟩ := hinside s value other hvalue hother
      have hrest := ih (hraw.inside hv hvalue) (hshown.inside hvalue hother) hat'
      unfold Hid at hrest ⊢
      rw [valueAt_of_some hother, valueAt_of_some hvalue, valueAt_of_some hchild,
        valueAt_of_some hv]
      exact hrest
    · rw [hresult]
      refine ⟨fun _ => rfl, fun hnot => absurd ?_ hnot⟩
      unfold Hid
      rw [valueAt_leaf (IsText.isLeaf htext), hat]
      exact Option.some_ne_none leaf |>.symm

theorem reveal_keeps (path : List Step) :
    (valueAt (revealHiddenValues equalInside (some raw) redacted (some shown)) path).isSome =
      (valueAt redacted path).isSome := by
  induction path generalizing raw redacted shown with
  | nil => rfl
  | cons s path ih =>
    rcases reveal_step equalInside hraw hshown with ⟨hnode, hresult, hinside⟩ | ⟨-, -, hresult⟩
    · cases hvalue : child redacted s with
      | none =>
        have hnone := hresult.2 s
        rw [hvalue, Option.isSome_none, Option.isSome_eq_false_iff, Option.isNone_iff_eq_none]
          at hnone
        rw [valueAt_of_none hvalue, valueAt_of_none hnone]
      | some value =>
        have hsome := hnode.2 s
        rw [hvalue, Option.isSome_some] at hsome
        obtain ⟨other, hother⟩ := Option.isSome_iff_exists.mp hsome.symm
        obtain ⟨v, hv, hchild⟩ := hinside s value other hvalue hother
        rw [valueAt_of_some hvalue, valueAt_of_some hchild]
        exact ih (hraw.inside hv hvalue) (hshown.inside hvalue hother)
    · rw [hresult]
      exact hraw.isSome_valueAt (s :: path)

end

end Reveal

/-- What a person who asks for the values gets. -/
theorem reveal_restores_hidden (equalInside : Json → Json → Bool) (tools : RedactionTools)
    (htools : KeepsShape tools) (registry : PolicyRegistry) (call : DispatchedCall) (raw : Json) :
    let redacted := redactedAnswer registry call raw tools
    let shown := hideSecretValues call.opId call.plainFields redacted raw
    let revealed := revealHiddenValues equalInside (some raw) redacted (some shown)
    (∀ path, (valueAt revealed path).isSome = (valueAt redacted path).isSome) ∧
    ∀ path leaf, valueAt redacted path = some leaf → Childless leaf →
      (Hid redacted shown path → valueAt revealed path = valueAt raw path) ∧
      (¬ Hid redacted shown path → valueAt revealed path = valueAt redacted path) := by
  intro redacted shown revealed
  have hraw := redaction_keeps htools registry call raw
  have hshown : Keeps AnyValue redacted shown := hideSecretValues_keeps _ _ redacted raw
  exact ⟨reveal_keeps equalInside hraw hshown, fun path leaf hat hleaf =>
    reveal_at equalInside hraw hshown hat hleaf⟩

/-- A password is put back, and the token in the log stays replaced. -/
theorem reveal_restores_hidden_password :
    let call : DispatchedCall := ⟨3, "k8s.pod.get", "k8s-1.x", "k8s", "acme", [], .success⟩
    let raw : Json := .obj [("password", .str "hunter2"), ("log", .str sampleJwt)]
    let shown : Json := .obj [("password", .str redactedParam), ("log", .str "[REDACTED:jwt]")]
    let redacted := redactedAnswer ⟨[], stripJwt⟩ call raw sampleTools
    let revealed := revealHiddenValues (fun _ _ => false) (some raw) redacted (some shown)
    revealed = .obj [("password", .str "hunter2"), ("log", .str "[REDACTED:jwt]")] ∧
    (∀ path, (valueAt revealed path).isSome = (valueAt redacted path).isSome) ∧
    ∀ path leaf, valueAt redacted path = some leaf → Childless leaf →
      (Hid redacted shown path → valueAt revealed path = valueAt raw path) ∧
      (¬ Hid redacted shown path → valueAt revealed path = valueAt redacted path) :=
  ⟨rfl, reveal_restores_hidden (fun _ _ => false) sampleTools sampleTools_keepsShape
    ⟨[], stripJwt⟩ ⟨3, "k8s.pod.get", "k8s-1.x", "k8s", "acme", [], .success⟩
    (.obj [("password", .str "hunter2"), ("log", .str sampleJwt)])⟩

end Meho.Redaction
