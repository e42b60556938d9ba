import Meho.Redaction.ParamPaths
import Meho.Redaction.PolicyReplay
import Meho.JsonDicts

/- The shape of an answer under its redaction and its default view (redaction/engine.py,
operations/_secret_values.py, operations/dispatcher.py).

A redaction rewrites texts and nothing else; the default view puts a text in the place of a
value. Neither adds, drops or moves a key or an item, so three trees that are walked side by
side (the answer, its redaction, the view) fit each other down to where the view hides
something. `Keeps may` says so path by path: what stands at a path stood there before, or is a
text in the place of a value that `may` be replaced.

`Keeps.of_steps` proves it from what one step down does, `redaction_keeps` and `view_keeps` for
the answer of a call.

Correspondence: `apply_tier2` is a parameter that keeps the shape (`KeepsShape`), as its walk
does; `_protect_secret_values` ↔ `IsDefaultView`. -/
namespace Meho.Redaction

/-! ## Values of one shape -/

/-- A value without what is inside. -/
def hull : Json → Json
  | .obj _ => .obj []
  | .arr _ => .arr []
  | leaf => leaf

/-- Two maps with the same keys, two lists of one length, or one leaf. -/
def SameNode (v w : Json) : Prop :=
  hull v = hull w ∧ ∀ s, (child v s).isSome = (child w s).isSome

/-- `b` is `a` with texts in the place of some values. -/
def Keeps (may : Json → Prop) (a b : Json) : Prop :=
  ∀ path w, valueAt b path = some w →
    ∃ v, valueAt a path = some v ∧ (SameNode v w ∨ (may v ∧ ∃ text, w = .str text))

def IsText (v : Json) : Prop := ∃ text, v = .str text

def AnyValue (_ : Json) : Prop := True

theorem SameNode.refl (v : Json) : SameNode v v := ⟨rfl, fun _ => rfl⟩

theorem SameNode.trans {u v w : Json} (h : SameNode u v) (h' : SameNode v w) : SameNode u w :=
  ⟨h.1.trans h'.1, fun s => (h.2 s).trans (h'.2 s)⟩

theorem SameNode.symm {v w : Json} (h : SameNode v w) : SameNode w v :=
  ⟨h.1.symm, fun s => (h.2 s).symm⟩

theorem SameNode.isText {v w : Json} (h : SameNode v w) (hw : IsText w) : IsText v := by
  obtain ⟨text, rfl⟩ := hw
  have hhull := h.1
  cases v with
  | str s => exact ⟨s, rfl⟩
  | null | bool | int | float | arr | obj => cases hhull

@[simp] theorem child_str (text : String) (s : Step) : child (.str text) s = none := by
  cases s <;> rfl

/-- Nothing is inside a text. -/
theorem valueAt_str (text : String) (path : List Step) :
    valueAt (.str text) path = if path = [] then some (.str text) else none := by
  cases path with
  | nil => rfl
  | cons s path => simp [valueAt]

section
variable {node : Json} {s : Step}

theorem valueAt_cons {path : List Step} {w : Json} :
    valueAt node (s :: path) = some w ↔ ∃ inner, child node s = some inner ∧
      valueAt inner path = some w :=
  Option.bind_eq_some_iff

theorem valueAt_of_none (h : child node s = none) (path : List Step) :
    valueAt node (s :: path) = none := by
  rw [valueAt, h, Option.bind_none]

theorem valueAt_of_some {inner : Json} (h : child node s = some inner) (path : List Step) :
    valueAt node (s :: path) = valueAt inner path := by
  rw [valueAt, h, Option.bind_some]

end

section Rules
variable {may : Json → Prop} {a b c : Json}

/-- One step at a time: related values are of one shape with related values inside, or the second
is a text. -/
theorem Keeps.of_steps {R : Json → Json → Prop}
    (hstep : ∀ a b, R a b →
      (SameNode a b ∧ ∀ s v w, child a s = some v → child b s = some w → R v w) ∨
        (may a ∧ ∃ text, b = .str text))
    (h : R a b) : Keeps may a b := by
  intro path
  induction path generalizing a b with
  | nil =>
    intro w hw
    obtain rfl := Option.some.inj hw
    rcases hstep a b h with ⟨hnode, -⟩ | htext
    · exact ⟨a, rfl, .inl hnode⟩
    · exact ⟨a, rfl, .inr htext⟩
  | cons s path ih =>
    intro w hw
    obtain ⟨other, hother, hw⟩ := valueAt_cons.mp hw
    rcases hstep a b h with ⟨hnode, hinside⟩ | ⟨-, text, rfl⟩
    · have hsome := hnode.2 s
      rw [hother, Option.isSome_some] at hsome
      obtain ⟨inner, hinner⟩ := Option.isSome_iff_exists.mp hsome
      obtain ⟨v, hv, hkept⟩ := ih (hinside s inner other hinner hother) w hw
      exact ⟨v, valueAt_cons.mpr ⟨inner, hinner, hv⟩, hkept⟩
    · simp at hother

theorem Keeps.refl (may : Json → Prop) (a : Json) : Keeps may a a := fun _ w hw =>
  ⟨w, hw, .inl (.refl w)⟩

theorem Keeps.here (h : Keeps may a b) : SameNode a b ∨ (may a ∧ ∃ text, b = .str text) := by
  obtain ⟨v, hv, hkept⟩ := h [] b rfl
  obtain rfl := Option.some.inj hv
  exact hkept

theorem Keeps.inside (h : Keeps may a b) {s : Step} {v w : Json} (hv : child a s = some v)
    (hw : child b s = some w) : Keeps may v w := by
  intro path u hu
  obtain ⟨v', hv', hkept⟩ := h (s :: path) u (valueAt_cons.mpr ⟨w, hw, hu⟩)
  obtain ⟨inner, hinner, hv'⟩ := valueAt_cons.mp hv'
  rw [hv] at hinner
  obtain rfl := Option.some.inj hinner
  exact ⟨v', hv', hkept⟩

/-- A replacement of texts keeps every path. -/
theorem Keeps.isSome_valueAt (h : Keeps IsText a b) (path : List Step) :
    (valueAt a path).isSome = (valueAt b path).isSome := by
  induction path generalizing a b with
  | nil => rfl
  | cons s path ih =>
    rcases h.here with hnode | ⟨⟨text, rfl⟩, other, rfl⟩
    · have hs := hnode.2 s
      cases hv : child a s with
      | none =>
        rw [hv, Option.isSome_none] at hs
        have hw := Option.isNone_iff_eq_none.mp (Option.isSome_eq_false_iff.mp hs.symm)
        rw [valueAt_of_none hv, valueAt_of_none hw]
      | some v =>
        rw [hv, Option.isSome_some] at hs
        obtain ⟨w, hw⟩ := Option.isSome_iff_exists.mp hs.symm
        rw [valueAt_of_some hv, valueAt_of_some hw]
        exact ih (h.inside hv hw)
    · rw [valueAt_of_none (child_str text s), valueAt_of_none (child_str other s)]

/-- One replacement after another. -/
theorem Keeps.trans (hmay : ∀ u v, SameNode u v → may v → may u) (h : Keeps may a b)
    (h' : Keeps may b c) : Keeps may a c := by
  intro path w hw
  obtain ⟨v, hv, hvw⟩ := h' path w hw
  obtain ⟨u, hu, huv⟩ := h path v hv
  refine ⟨u, hu, ?_⟩
  rcases huv with huv | ⟨hmayu, hv⟩
  · rcases hvw with hvw | ⟨hmayv, hw⟩
    · exact .inl (huv.trans hvw)
    · exact .inr ⟨hmay u v huv hmayv, hw⟩
  · right
    refine ⟨hmayu, ?_⟩
    rcases hvw with hvw | ⟨-, hw⟩
    · exact hvw.symm.isText hv
    · exact hw

theorem Keeps.any (h : Keeps may a b) : Keeps AnyValue a b := by
  intro path w hw
  obtain ⟨v, hv, hkept⟩ := h path w hw
  exact ⟨v, hv, hkept.imp_right fun htext => ⟨trivial, htext.2⟩⟩

end Rules

/-! ## Maps and lists of one shape -/

theorem sameNode_obj {fields others : Dict}
    (h : ∀ name, (dictGet fields name).isSome = (dictGet others name).isSome) :
    SameNode (.obj fields) (.obj others) := by
  refine ⟨rfl, fun s => ?_⟩
  cases s with
  | key name => exact h name
  | index i => rfl

theorem sameNode_arr {items others : List Json} (h : items.length = others.length) :
    SameNode (.arr items) (.arr others) := by
  refine ⟨rfl, fun s => ?_⟩
  cases s with
  | key name => rfl
  | index i =>
    show (items[i]?).isSome = (others[i]?).isSome
    by_cases hi : i < items.length
    · simp [hi, h ▸ hi]
    · simp [hi, h ▸ hi]

theorem SameNode.length {items others : List Json} (h : SameNode (.arr items) (.arr others)) :
    items.length = others.length := by
  have hchild : ∀ i : Nat, (items[i]?).isSome = (others[i]?).isSome := fun i => h.2 (.index i)
  have hfirst := hchild items.length
  have hsecond := hchild others.length
  simp at hfirst hsecond
  omega

/-! ## The engine rewrites texts -/

section Engine
variable (tools : RedactionTools) (mutate : Bool)

theorem dictGet_map_values (f : String → Json → Json) (fields : Dict) (name : String) :
    dictGet (fields.map fun entry => (entry.1, f entry.1 entry.2)) name =
      (dictGet fields name).map (f name) := by
  induction fields with
  | nil => rfl
  | cons entry fields ih =>
    obtain ⟨key, value⟩ := entry
    rw [List.map_cons, dictGet_cons, dictGet_cons, ih]
    by_cases hkey : key = name
    · rw [if_pos hkey, if_pos hkey, hkey, Option.map_some]
    · rw [if_neg hkey, if_neg hkey]

theorem rewriteRows_length (rule : RedactionRule) (path : String) (index offset : Nat)
    (spans : List (Nat × Nat)) (rows : List String) :
    (rewriteRows tools mutate rule path index offset spans rows).1.length = rows.length := by
  induction rows generalizing index offset spans with
  | nil => rfl
  | cons row rows ih => simp only [rewriteRows, List.length_cons, ih]

/-- A value and what a rule makes of it. -/
inductive Rewritten (rule : RedactionRule) : Json → Json → Prop where
  | walked (path : String) (node : Json) :
      Rewritten rule node (walkAndApply tools mutate rule path node).1
  | text (before after : String) : Rewritten rule (.str before) (.str after)

theorem rewritten_step (rule : RedactionRule) {a b : Json} (h : Rewritten tools mutate rule a b) :
    (SameNode a b ∧ ∀ s v w, child a s = some v → child b s = some w →
      Rewritten tools mutate rule v w) ∨ (IsText a ∧ ∃ text, b = .str text) := by
  cases h with
  | text before after => exact .inr ⟨⟨before, rfl⟩, after, rfl⟩
  | walked path =>
    cases a with
    | str leaf => exact .inr ⟨⟨leaf, rfl⟩, _, rfl⟩
    | null | bool | int | float =>
      left
      refine ⟨.refl _, fun s v w hv => ?_⟩
      cases s <;> cases hv
    | obj fields =>
      left
      simp only [walkAndApply, walkFields_eq]
      have hget := dictGet_map_values (fun key value =>
        (walkAndApply tools mutate rule (joinPath path key) value).1) fields
      refine ⟨sameNode_obj fun name => ?_, fun s v w hv hw => ?_⟩
      · rw [hget, Option.isSome_map]
      · cases s with
        | index i => cases hv
        | key name =>
          simp only [child] at hv hw
          rw [hget, hv] at hw
          obtain rfl := Option.some.inj hw
          exact .walked _ v
    | arr items =>
      left
      simp only [walkAndApply]
      -- a list of rows is rewritten as one text and cut into rows again
      cases hrows : rowsOf? items with
      | some rows =>
        have hitems := map_str_rowsOf? hrows
        refine ⟨sameNode_arr ?_, fun s v w hv hw => ?_⟩
        · rw [← hitems]
          simp only [applyToRows, List.length_map, rewriteRows_length]
        · cases s with
          | key name => cases hv
          | index i =>
            simp only [child, ← hitems, List.getElem?_map] at hv hw
            obtain ⟨row, -, rfl⟩ := Option.map_eq_some_iff.mp hv
            obtain ⟨other, -, rfl⟩ := Option.map_eq_some_iff.mp hw
            exact .text row other
      | none =>
        refine ⟨sameNode_arr (walkItems_length rule path 0 items).symm, fun s v w hv hw => ?_⟩
        cases s with
        | key name => cases hv
        | index i =>
          simp only [child] at hv hw
          rw [walkItems_getElem?, hv] at hw
          obtain rfl := Option.some.inj hw
          exact .walked _ v

theorem isText_of_sameNode (u v : Json) (h : SameNode u v) (hv : IsText v) : IsText u := h.isText hv

theorem runRules_keeps (rules : List RedactionRule) (path : String) (node : Json) :
    Keeps IsText node (runRules tools mutate rules path node).1 := by
  induction rules generalizing node with
  | nil => exact .refl IsText node
  | cons rule rules ih =>
    have hfirst : Keeps IsText node (walkAndApply tools mutate rule path node).1 :=
      Keeps.of_steps (fun _ _ => rewritten_step tools mutate rule) (.walked path node)
    exact hfirst.trans isText_of_sameNode (ih _)

end Engine

/-! ## The default view hides values -/

section View
variable (plainNames : List String)

/-- What the walk makes of an entry's value. -/
def viewedEntry (hideNumbers p : Bool) (name : String) (value : Json) : Json :=
  if plainNames.contains name then value
  else if secretNamed p name && isSecretValue hideNumbers value then .str redactedParam
  else (scrubSecretNamedKeys hideNumbers plainNames value).1

theorem dictGet_viewedFields (hideNumbers p : Bool) (fields : Dict) (name : String) :
    dictGet (scrubFields hideNumbers plainNames p fields).1 name =
      (dictGet fields name).map (viewedEntry plainNames hideNumbers p name) := by
  induction fields with
  | nil => rfl
  | cons entry fields ih =>
    obtain ⟨key, value⟩ := entry
    have hentry : (scrubFields hideNumbers plainNames p ((key, value) :: fields)).1 =
        (key, viewedEntry plainNames hideNumbers p key value) ::
          (scrubFields hideNumbers plainNames p fields).1 := by
      simp only [scrubFields, viewedEntry]
      split <;> [rfl; split <;> rfl]
    rw [hentry, dictGet_cons, dictGet_cons, ih]
    by_cases hkey : key = name
    · rw [if_pos hkey, if_pos hkey, hkey, Option.map_some]
    · rw [if_neg hkey, if_neg hkey]

theorem getElem?_viewedItems (hideNumbers : Bool) (items : List Json) (i : Nat) :
    (scrubItems hideNumbers plainNames items).1[i]? =
      items[i]?.map fun item => (scrubSecretNamedKeys hideNumbers plainNames item).1 := by
  induction items generalizing i with
  | nil => rfl
  | cons item items ih =>
    cases i with
    | zero => rfl
    | succ i => exact ih i

theorem dictGet_hideAllFields (fields : Dict) (name : String) :
    dictGet (hideAllFields fields) name = (dictGet fields name).map hideAll := by
  induction fields with
  | nil => rfl
  | cons entry fields ih =>
    obtain ⟨key, value⟩ := entry
    rw [hideAllFields, dictGet_cons, dictGet_cons, ih]
    by_cases hkey : key = name
    · rw [if_pos hkey, if_pos hkey, Option.map_some]
    · rw [if_neg hkey, if_neg hkey]

theorem getElem?_hideAllItems (items : List Json) (i : Nat) :
    (hideAllItems items)[i]? = items[i]?.map hideAll := by
  induction items generalizing i with
  | nil => rfl
  | cons item items ih =>
    cases i with
    | zero => rfl
    | succ i => exact ih i

theorem dictGet_scrubMembers (hideNumbers p : Bool) (fields : Dict) (name : String) :
    dictGet (scrubMembers hideNumbers p fields) name = (dictGet fields name).map fun value =>
      if secretNamed p name && canHoldSecret hideNumbers value then .str redactedParam
      else scrubSecretFields hideNumbers value := by
  induction fields with
  | nil => rfl
  | cons entry fields ih =>
    obtain ⟨key, value⟩ := entry
    rw [scrubMembers, dictGet_cons, dictGet_cons, ih]
    by_cases hkey : key = name
    · rw [if_pos hkey, if_pos hkey, hkey, Option.map_some]
    · rw [if_neg hkey, if_neg hkey]

theorem getElem?_scrubElements (hideNumbers : Bool) (items : List Json) (i : Nat) :
    (scrubElements hideNumbers items)[i]? = items[i]?.map (scrubSecretFields hideNumbers) := by
  induction items generalizing i with
  | nil => rfl
  | cons item items ih =>
    cases i with
    | zero => rfl
    | succ i => exact ih i

/-- A value and what a default view, or the cleanup of an error, makes of it. -/
inductive Viewed : Json → Json → Prop where
  | same (node : Json) : Viewed node node
  | text (node : Json) (text : String) : Viewed node (.str text)
  | scrubbed (hideNumbers : Bool) (plainNames : List String) (node : Json) :
      Viewed node (scrubSecretNamedKeys hideNumbers plainNames node).1
  | hidden (node : Json) : Viewed node (hideAll node)
  | cleaned (hideNumbers : Bool) (node : Json) : Viewed node (scrubSecretFields hideNumbers node)
  /-- Texts inside. -/
  | texts {node view : Json} (hnode : SameNode node view)
      (htexts : ∀ s inner, child view s = some inner → IsText inner) : Viewed node view

theorem Viewed.ofText {node view : Json} (h : IsText view) : Viewed node view := by
  obtain ⟨text, rfl⟩ := h
  exact .text node text

theorem viewed_entry (hideNumbers p : Bool) (name : String) (value : Json) :
    Viewed value (viewedEntry plainNames hideNumbers p name value) := by
  unfold viewedEntry
  split
  · exact .same value
  · split
    · exact .text value redactedParam
    · exact .scrubbed hideNumbers plainNames value

theorem isText_hideAll {leaf : Json} (h : isLeaf leaf = true) : IsText (hideAll leaf) := by
  cases leaf with
  | obj | arr => cases h
  | null | bool | int | float | str => exact ⟨secretValuePlaceholder, rfl⟩

theorem viewed_step {a b : Json} (h : Viewed a b) :
    (SameNode a b ∧ ∀ s v w, child a s = some v → child b s = some w → Viewed v w) ∨
      (AnyValue a ∧ ∃ text, b = .str text) := by
  cases h with
  | text _ text => exact .inr ⟨trivial, text, rfl⟩
  | same =>
    refine .inl ⟨.refl a, fun s v w hv hw => ?_⟩
    rw [hv] at hw
    obtain rfl := Option.some.inj hw
    exact .same v
  | texts hnode htexts => exact .inl ⟨hnode, fun s v w _ hw => .ofText (htexts s w hw)⟩
  -- everything below a hidden place is hidden, so the step goes into a hidden child
  | hidden =>
    cases a with
    | null | bool | int | float | str => exact .inr ⟨trivial, isText_hideAll rfl⟩
    | obj fields =>
      refine .inl ⟨sameNode_obj fun name => ?_, fun s v w hv hw => ?_⟩
      · rw [dictGet_hideAllFields, Option.isSome_map]
      · cases s with
        | index i => cases hv
        | key name =>
          simp only [child, hideAll] at hv hw
          rw [dictGet_hideAllFields, hv] at hw
          obtain rfl := Option.some.inj hw
          exact .hidden v
    | arr items =>
      have hlen : (hideAllItems items).length = items.length := by
        induction items with
        | nil => rfl
        | cons item items ih => simp only [hideAllItems, List.length_cons, ih]
      refine .inl ⟨sameNode_arr hlen.symm, fun s v w hv hw => ?_⟩
      cases s with
      | key name => cases hv
      | index i =>
        simp only [child, hideAll] at hv hw
        rw [getElem?_hideAllItems, hv] at hw
        obtain rfl := Option.some.inj hw
        exact .hidden v
  -- one field at a time: a secret name makes a text of the value, any other name goes on
  | cleaned hideNumbers =>
    cases a with
    | null | bool | int | float =>
      refine .inl ⟨.refl _, fun s v w hv => ?_⟩
      cases s <;> cases hv
    | str text => exact .inr ⟨trivial, _, rfl⟩
    | obj fields =>
      have hget := dictGet_scrubMembers hideNumbers (isSecretNameValuePair [] fields) fields
      refine .inl ⟨sameNode_obj fun name => ?_, fun s v w hv hw => ?_⟩
      · rw [hget, Option.isSome_map]
      · cases s with
        | index i => cases hv
        | key name =>
          simp only [child, scrubSecretFields] at hv hw
          rw [hget, hv, Option.map_some] at hw
          obtain rfl := Option.some.inj hw
          split
          · exact .text v redactedParam
          · exact .cleaned hideNumbers v
    | arr items =>
      have hlen : (scrubElements hideNumbers items).length = items.length := by
        induction items with
        | nil => rfl
        | cons item items ih => simp only [scrubElements, List.length_cons, ih]
      refine .inl ⟨sameNode_arr hlen.symm, fun s v w hv hw => ?_⟩
      cases s with
      | key name => cases hv
      | index i =>
        simp only [child, scrubSecretFields] at hv hw
        rw [getElem?_scrubElements, hv] at hw
        obtain rfl := Option.some.inj hw
        exact .cleaned hideNumbers v
  -- no leaf changes here by itself: only the name of a field decides
  | scrubbed hideNumbers plainNames =>
    left
    cases a with
    | null | bool | int | float | str =>
      refine ⟨.refl _, fun s v w hv => ?_⟩
      cases s <;> cases hv
    | obj fields =>
      have hget := dictGet_viewedFields plainNames hideNumbers
        (isSecretNameValuePair plainNames fields) fields
      refine ⟨sameNode_obj fun name => ?_, fun s v w hv hw => ?_⟩
      · rw [hget, Option.isSome_map]
      · cases s with
        | index i => cases hv
        | key name =>
          simp only [child, scrubSecretNamedKeys] at hv hw
          rw [hget, hv] at hw
          obtain rfl := Option.some.inj hw
          exact viewed_entry _ _ _ _ v
    | arr items =>
      have hlen : (scrubItems hideNumbers plainNames items).1.length = items.length := by
        induction items with
        | nil => rfl
        | cons item items ih => simp only [scrubItems, List.length_cons, ih]
      refine ⟨sameNode_arr hlen.symm, fun s v w hv hw => ?_⟩
      cases s with
      | key name => cases hv
      | index i =>
        simp only [child, scrubSecretNamedKeys] at hv hw
        rw [getElem?_viewedItems, hv] at hw
        obtain rfl := Option.some.inj hw
        exact .scrubbed hideNumbers plainNames v

theorem Viewed.keeps {a b : Json} (h : Viewed a b) : Keeps AnyValue a b :=
  Keeps.of_steps (fun _ _ => viewed_step) h

/-- An answer whose field `key` is replaced, and whose other fields are scrubbed. -/
theorem keeps_of_field {fields : Dict} {key : String} {value view : Json}
    (hvalue : dictGet fields key = some value) (hview : Viewed value view) :
    Keeps AnyValue (.obj fields) (.obj (dictSet (scrubWithout key fields) key view)) := by
  have hother : ∀ name, name ≠ key → dictGet (dictSet (scrubWithout key fields) key view) name =
      (dictGet fields name).map (viewedEntry [] true
        (isSecretNameValuePair [] (fields.filter (·.1 ≠ key))) name) := by
    intro name hname
    rw [dictGet_dictSet_ne hname, scrubWithout, dictGet_viewedFields]
    exact congrArg _ (dictGet_dictErase_ne hname)
  refine Keeps.of_steps (R := fun a b => Viewed a b ∨
      (a = .obj fields ∧ b = .obj (dictSet (scrubWithout key fields) key view)))
    (fun a b hab => ?_) (.inr ⟨rfl, rfl⟩)
  rcases hab with hab | ⟨rfl, rfl⟩
  · exact (viewed_step hab).imp_left fun h =>
      ⟨h.1, fun s v w hv hw => .inl (h.2 s v w hv hw)⟩
  · left
    refine ⟨sameNode_obj fun name => ?_, fun s v w hv hw => .inl ?_⟩
    · by_cases hname : name = key
      · rw [hname, hvalue, dictGet_dictSet]
        rfl
      · rw [hother name hname, Option.isSome_map]
    · cases s with
      | index i => cases hv
      | key name =>
        simp only [child] at hv hw
        by_cases hname : name = key
        · subst hname
          rw [hvalue] at hv
          rw [dictGet_dictSet] at hw
          obtain rfl := Option.some.inj hv
          obtain rfl := Option.some.inj hw
          exact hview
        · rw [hother name hname, hv] at hw
          obtain rfl := Option.some.inj hw
          exact viewed_entry _ _ _ _ v

theorem hideKvData_keeps (answer : Json) : Keeps AnyValue answer (hideKvData answer) := by
  unfold hideKvData
  split
  · rename_i fields
    split
    · rename_i data hdata
      have hget := dictGet_map_values (fun _ _ => .str secretValuePlaceholder) data
      refine keeps_of_field hdata (.texts (sameNode_obj fun name => ?_) fun s inner hinner => ?_)
      · rw [hget, Option.isSome_map]
      · cases s with
        | index i => cases hinner
        | key name =>
          simp only [child] at hinner
          rw [hget] at hinner
          obtain ⟨value, -, rfl⟩ := Option.map_eq_some_iff.mp hinner
          exact ⟨_, rfl⟩
    · exact (Viewed.hidden _).keeps
  · exact (Viewed.hidden _).keeps

theorem isText_hideEnvValue (entry : Json) : IsText (hideEnvValue entry) := by
  unfold hideEnvValue
  split
  · split <;> exact ⟨_, rfl⟩
  · exact ⟨_, rfl⟩

theorem envEntries_length (redacted : List Json) (raw : Json) :
    (envEntries redacted raw).length = redacted.length := by
  unfold envEntries
  split
  · split
    · split
      · assumption
      · rfl
    · rfl
  · rfl

theorem hideEnvValues_keeps (answer raw : Json) : Keeps AnyValue answer (hideEnvValues answer raw) := by
  unfold hideEnvValues
  split
  · rename_i fields
    split
    · rename_i entries hentries
      refine keeps_of_field hentries (.texts (sameNode_arr ?_) fun s inner hinner => ?_)
      · rw [List.length_map, envEntries_length]
      · cases s with
        | key name => cases hinner
        | index i =>
          simp only [child, List.getElem?_map] at hinner
          obtain ⟨entry, -, rfl⟩ := Option.map_eq_some_iff.mp hinner
          exact isText_hideEnvValue entry
    · exact (Viewed.hidden _).keeps
  · exact (Viewed.hidden _).keeps

theorem hideSecretValues_keeps (opId : String) (answer raw : Json) :
    Keeps AnyValue answer (hideSecretValues opId plainNames answer raw) := by
  unfold hideSecretValues
  split
  · exact hideKvData_keeps answer
  · split
    · exact hideEnvValues_keeps answer raw
    · exact (Viewed.scrubbed true plainNames answer).keeps

end View

/-! ## A call's answer -/

/-- The second tier walks an answer as the engine does. -/
structure KeepsShape (tools : RedactionTools) : Prop where
  tier2 : ∀ policy labels node, Keeps IsText node (tools.applyTier2 policy labels node).1

theorem redactErrorPayload_keeps {tools : RedactionTools} {registry : PolicyRegistry}
    {node cleaned : Json} (h : redactErrorPayload tools registry node = some cleaned) :
    Keeps AnyValue node cleaned := by
  unfold redactErrorPayload at h
  split at h
  · cases h
  · obtain rfl := Option.some.inj h
    have hfields : Keeps AnyValue node (scrubSecretFields false node) := (Viewed.cleaned false node).keeps
    exact hfields.trans (fun _ _ _ _ => trivial) (runRules_keeps tools _ _ "" _).any

section Call
variable {tools : RedactionTools} (htools : KeepsShape tools) (registry : PolicyRegistry)
  (call : DispatchedCall) (raw : Json)

/-- The answer after its policy. -/
def redactedAnswer (tools : RedactionTools) : Json := (tier2Result tools registry call raw).1

/-- What the caller is shown of an answer by default; of an error envelope, after the cleanup. -/
def IsDefaultView (tools : RedactionTools) (shown : Json) : Prop :=
  let view := hideSecretValues call.opId call.plainFields (redactedAnswer registry call raw tools) raw
  match call.kind with
  | .success => shown = view
  | .compositeError => redactErrorPayload tools registry view = some shown

theorem view_keeps {shown : Json} (h : IsDefaultView registry call raw tools shown) :
    Keeps AnyValue (redactedAnswer registry call raw tools) shown := by
  have hview := hideSecretValues_keeps call.plainFields call.opId
    (redactedAnswer registry call raw tools) raw
  unfold IsDefaultView at h
  cases hkind : call.kind with
  | success =>
    rw [hkind] at h
    rw [show shown = _ from h]
    exact hview
  | compositeError =>
    rw [hkind] at h
    exact hview.trans (fun _ _ _ _ => trivial) (redactErrorPayload_keeps h)

include htools

theorem redaction_keeps : Keeps IsText raw (redactedAnswer registry call raw tools) := by
  have htier1 := runRules_keeps tools (appliedPolicy registry call).mutates
    ((appliedPolicy registry call).applicable call.labels) "" raw
  unfold redactedAnswer tier2Result
  dsimp only
  split
  · exact htier1
  · exact htier1.trans isText_of_sameNode (htools.tier2 _ _ _)

theorem view_keeps_raw {shown : Json} (h : IsDefaultView registry call raw tools shown) :
    Keeps AnyValue raw shown :=
  (redaction_keeps htools registry call raw).any.trans (fun _ _ _ _ => trivial)
    (view_keeps registry call raw h)

end Call

end Meho.Redaction
