import Meho.Redaction.ParamNames
import Meho.Runner.CanonicalText

/- The scrub of secret-named values, read path by path (broadcast/events.py, operations/_validate.py).

A path is the keys and indexes that lead into a value. `hiddenAlong` says that
the walk replaces a value on the way of a path; off those paths it changes no leaf
(`at_scrub`). Params that differ only in secret-named values, or in the order of
their keys, have one audit hash.

Correspondence: `scrub_secret_named_values` ↔ `scrubSecretNamedKeys`;
`compute_audit_params_hash` ↔ `computeAuditParamsHash`, over a keyed digest of the
canonical text. -/
namespace Meho.Redaction

/-! ## Paths -/

/-- One step into a value. -/
inductive Step where
  | key (name : String)
  | index (i : Nat)
  deriving DecidableEq, Repr

/-- The value one step down. -/
def child : Json → Step → Option Json
  | .obj fields, .key name => dictGet fields name
  | .arr items, .index i => items[i]?
  | _, _ => none

/-- The value at a path. -/
def valueAt (node : Json) : List Step → Option Json
  | [] => some node
  | s :: path => (child node s).bind fun value => valueAt value path

/-- Neither a map nor a list. -/
def isLeaf : Json → Bool
  | .obj _ => false
  | .arr _ => false
  | _ => true

section
variable (hideNumbers : Bool)

/-- The walk replaces the value one step down. -/
def hidesChild : Json → Step → Bool
  | .obj fields, .key name =>
    match dictGet fields name with
    | some value =>
      secretNamed (isSecretNameValuePair [] fields) name && isSecretValue hideNumbers value
    | none => false
  | _, _ => false

/-- The walk replaces a value on the way of the path. -/
def hiddenAlong (node : Json) : List Step → Bool
  | [] => false
  | s :: path =>
    hidesChild hideNumbers node s ||
      match child node s with
      | some value => hiddenAlong value path
      | none => false

mutual
/-- Some value under a secret-shaped name is one the walk replaces. -/
def holdsSecret : Json → Bool
  | .obj fields => holdsSecretFields (isSecretNameValuePair [] fields) fields
  | .arr items => holdsSecretItems items
  | _ => false

def holdsSecretFields (hidePairValue : Bool) : Dict → Bool
  | [] => false
  | (name, value) :: rest =>
    (secretNamed hidePairValue name && isSecretValue hideNumbers value) || holdsSecret value ||
      holdsSecretFields hidePairValue rest

def holdsSecretItems : List Json → Bool
  | [] => false
  | item :: rest => holdsSecret item || holdsSecretItems rest
end

variable {hideNumbers}

/-! ## The walk along a path -/

variable (hideNumbers) in
/-- What the walk makes of an entry's value. -/
def scrubbedEntry (p : Bool) (name : String) (value : Json) : Json :=
  if secretNamed p name && isSecretValue hideNumbers value then .str redactedParam
  else (scrubSecretNamedKeys hideNumbers [] value).1

theorem scrubFields_cons (p : Bool) (name : String) (value : Json) (rest : Dict) :
    (scrubFields hideNumbers [] p ((name, value) :: rest)).1 =
      (name, scrubbedEntry hideNumbers p name value) :: (scrubFields hideNumbers [] p rest).1 := by
  by_cases hhide : (secretNamed p name && isSecretValue hideNumbers value) = true
  · simp only [scrubFields, scrubbedEntry, if_pos hhide]
    rfl
  · simp only [scrubFields, scrubbedEntry, if_neg hhide]
    rfl

theorem dictGet_scrubFields (p : Bool) (name : String) (fields : Dict) :
    dictGet (scrubFields hideNumbers [] p fields).1 name =
      (dictGet fields name).map (scrubbedEntry hideNumbers p name) := by
  induction fields with
  | nil => simp [scrubFields, dictGet]
  | cons e rest ih =>
    obtain ⟨key, value⟩ := e
    rw [scrubFields_cons]
    unfold dictGet
    by_cases hk : key = name
    · rw [if_pos hk, if_pos hk, hk]
      rfl
    · rw [if_neg hk, if_neg hk, ih]

theorem getElem?_scrubItems (items : List Json) : ∀ i : Nat,
    (scrubItems hideNumbers [] items).1[i]? =
      (items[i]?).map fun item => (scrubSecretNamedKeys hideNumbers [] item).1 := by
  induction items with
  | nil => simp [scrubItems]
  | cons item items ih =>
    intro i
    cases i with
    | zero => simp [scrubItems]
    | succ i => simp [scrubItems, ih]

theorem child_scrub (node : Json) (s : Step) :
    child (scrubSecretNamedKeys hideNumbers [] node).1 s =
      (child node s).map fun value =>
        if hidesChild hideNumbers node s then .str redactedParam
        else (scrubSecretNamedKeys hideNumbers [] value).1 := by
  cases node with
  | obj fields =>
    cases s with
    | index i => simp [scrubSecretNamedKeys, child]
    | key name =>
      simp only [scrubSecretNamedKeys, child, dictGet_scrubFields]
      cases hget : dictGet fields name with
      | none => rfl
      | some value => simp [hidesChild, hget, scrubbedEntry]
  | arr items =>
    cases s with
    | key name => simp [scrubSecretNamedKeys, child]
    | index i => simp [scrubSecretNamedKeys, child, getElem?_scrubItems, hidesChild]
  | _ => simp [scrubSecretNamedKeys, child]

variable {node : Json} {path : List Step}

/-- Where nothing on the way is replaced, a path leads to the walked value. -/
theorem at_scrub (h : hiddenAlong hideNumbers node path = false) :
    valueAt (scrubSecretNamedKeys hideNumbers [] node).1 path =
      (valueAt node path).map fun value => (scrubSecretNamedKeys hideNumbers [] value).1 := by
  induction path generalizing node with
  | nil => rfl
  | cons s path ih =>
    simp only [hiddenAlong, Bool.or_eq_false_iff] at h
    unfold valueAt
    rw [child_scrub, h.1]
    cases hchild : child node s with
    | none => rfl
    | some value =>
      rw [hchild] at h
      exact ih h.2

variable {value : Json}

theorem scrub_leaf (h : isLeaf value = true) :
    scrubSecretNamedKeys hideNumbers [] value = (value, false) := by
  cases value <;> simp_all [isLeaf, scrubSecretNamedKeys]

theorem isLeaf_scrub (value : Json) :
    isLeaf (scrubSecretNamedKeys hideNumbers [] value).1 = isLeaf value := by
  cases value <;> simp [isLeaf, scrubSecretNamedKeys]

/-- A value inside a replaced one is not reached; the replaced one reads the marker. -/
theorem at_scrub_hidden (h : hiddenAlong hideNumbers node path = true)
    (hat : valueAt (scrubSecretNamedKeys hideNumbers [] node).1 path = some value) :
    value = .str redactedParam := by
  induction path generalizing node with
  | nil => cases h
  | cons s path ih =>
    unfold valueAt at hat
    rw [child_scrub] at hat
    cases hchild : child node s with
    | none =>
      rw [hchild] at hat
      cases hat
    | some inner =>
      rw [hchild] at hat
      by_cases hhide : hidesChild hideNumbers node s = true
      · simp only [Option.map_some, if_pos hhide, Option.bind_some] at hat
        cases path with
        | nil => exact (Option.some.inj hat).symm
        | cons s' path => cases s' <;> cases hat
      · rw [Bool.not_eq_true] at hhide
        simp only [hiddenAlong, hchild, hhide, Bool.false_or] at h
        simp only [Option.map_some, hhide, Bool.false_eq_true, if_false, Option.bind_some] at hat
        exact ih h hat

/-! ## Twice is once -/

mutual
theorem scrub_scrub : ∀ node : Json,
    (scrubSecretNamedKeys hideNumbers [] (scrubSecretNamedKeys hideNumbers [] node).1).1 =
      (scrubSecretNamedKeys hideNumbers [] node).1
  | .null | .bool b | .int i | .float t | .str s => by simp [scrubSecretNamedKeys]
  | .arr items => by
    simp only [scrubSecretNamedKeys]
    rw [scrubItems_scrubItems items]
  | .obj fields => by
    simp only [scrubSecretNamedKeys, isSecretNameValuePair_scrubFields]
    rw [scrubFields_scrubFields _ fields]

theorem scrubFields_scrubFields (p : Bool) : ∀ fields : Dict,
    (scrubFields hideNumbers [] p (scrubFields hideNumbers [] p fields).1).1 =
      (scrubFields hideNumbers [] p fields).1
  | [] => by simp [scrubFields]
  | (name, value) :: rest => by
    have ih := scrubFields_scrubFields p rest
    have hv := scrub_scrub value
    rw [scrubFields_cons, scrubFields_cons, ih]
    congr 2
    unfold scrubbedEntry
    by_cases hname : secretNamed p name = true
    · by_cases hvalue : isSecretValue hideNumbers value = true
      · have hmarker : isSecretValue hideNumbers (.str redactedParam) = true := rfl
        simp [hname, hvalue, hmarker]
      · rw [Bool.not_eq_true] at hvalue
        simp [hname, hvalue, scrub_eq_self_of_not_secretValue hvalue]
    · simp [hname, hv]

theorem scrubItems_scrubItems : ∀ items : List Json,
    (scrubItems hideNumbers [] (scrubItems hideNumbers [] items).1).1 =
      (scrubItems hideNumbers [] items).1
  | [] => by simp [scrubItems]
  | item :: rest => by
    simp [scrubItems, scrub_scrub item, scrubItems_scrubItems rest]
end

/-! ## The flag -/

mutual
/-- The walk reports that it found something exactly where there is something. -/
theorem found_eq_holdsSecret : ∀ node : Json,
    (scrubSecretNamedKeys hideNumbers [] node).2 = true ↔ holdsSecret hideNumbers node = true
  | .null | .bool b | .int i | .float t | .str s => by simp [scrubSecretNamedKeys, holdsSecret]
  | .arr items => by
    simp only [scrubSecretNamedKeys, holdsSecret]
    exact foundItems_eq_holdsSecret items
  | .obj fields => by
    simp only [scrubSecretNamedKeys, holdsSecret]
    exact foundFields_eq_holdsSecret _ fields

theorem foundFields_eq_holdsSecret (p : Bool) : ∀ fields : Dict,
    (scrubFields hideNumbers [] p fields).2 = true ↔ holdsSecretFields hideNumbers p fields = true
  | [] => by simp [scrubFields, holdsSecretFields]
  | (name, value) :: rest => by
    have ih := foundFields_eq_holdsSecret p rest
    have hv := found_eq_holdsSecret value
    by_cases hhide : (secretNamed p name && isSecretValue hideNumbers value) = true
    · simp [scrubFields, holdsSecretFields, hhide]
    · simp only [scrubFields, holdsSecretFields, hhide, Bool.false_or, Bool.or_eq_true]
      simp [ih, hv]

theorem foundItems_eq_holdsSecret : ∀ items : List Json,
    (scrubItems hideNumbers [] items).2 = true ↔ holdsSecretItems hideNumbers items = true
  | [] => by simp [scrubItems, holdsSecretItems]
  | item :: rest => by
    simp [scrubItems, holdsSecretItems, found_eq_holdsSecret item, foundItems_eq_holdsSecret rest]
end

/-! ## What is left under a secret-shaped name -/

section
variable {p : Bool} {fields : Dict} (h : secretFreeFields hideNumbers [] p fields = true)
    {name : String} (hget : dictGet fields name = some value)
include h hget

theorem hiddenValue_of_secretFreeFields (hname : secretNamed p name = true) :
    hiddenValue hideNumbers value = true := by
  induction fields with
  | nil => cases hget
  | cons e fields ih =>
    obtain ⟨key, v⟩ := e
    simp only [secretFreeFields, Bool.and_eq_true] at h
    unfold dictGet at hget
    by_cases hk : key = name
    · rw [if_pos hk] at hget
      cases hget
      subst hk
      simpa [hname] using h.1
    · rw [if_neg hk] at hget
      exact ih h.2 hget

theorem secretFree_of_dictGet : secretFree hideNumbers [] value = true := by
  induction fields with
  | nil => cases hget
  | cons e fields ih =>
    obtain ⟨key, v⟩ := e
    simp only [secretFreeFields, Bool.and_eq_true] at h
    unfold dictGet at hget
    by_cases hk : key = name
    · rw [if_pos hk] at hget
      cases hget
      by_cases hname : secretNamed p key = true
      · -- the marker and the values that pass are leaves
        have hhidden : hiddenValue hideNumbers value = true := by simpa [hname] using h.1
        cases value <;> simp_all [hiddenValue, isSecretValue, secretFree]
      · simpa [hname] using h.1
    · rw [if_neg hk] at hget
      exact ih h.2 hget

end

theorem secretFree_of_getElem? {items : List Json} (h : secretFreeItems hideNumbers [] items = true)
    {i : Nat} (hget : items[i]? = some value) : secretFree hideNumbers [] value = true := by
  induction items generalizing i with
  | nil => cases hget
  | cons item items ih =>
    simp only [secretFreeItems, Bool.and_eq_true] at h
    cases i with
    | zero =>
      cases hget
      exact h.1
    | succ i => exact ih h.2 hget

theorem secretFree_at (h : secretFree hideNumbers [] node = true)
    (hat : valueAt node path = some value) : secretFree hideNumbers [] value = true := by
  induction path generalizing node with
  | nil =>
    cases hat
    exact h
  | cons s path ih =>
    obtain ⟨inner, hchild, hat⟩ := Option.bind_eq_some_iff.mp hat
    refine ih ?_ hat
    cases node with
    | obj fields =>
      cases s with
      | index i => cases hchild
      | key name =>
        rw [secretFree] at h
        exact secretFree_of_dictGet h hchild
    | arr items =>
      cases s with
      | key name => cases hchild
      | index i =>
        rw [secretFree] at h
        exact secretFree_of_getElem? h hchild
    | _ => cases s <;> cases hchild

end

end Meho.Redaction
