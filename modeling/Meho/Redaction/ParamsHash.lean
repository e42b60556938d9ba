import Meho.JsonDicts
import Meho.Redaction.ParamPaths

/- The params hash of the audit records (operations/_validate.py).

The hash covers the canonical text of the scrubbed params: their keys in order,
each secret-named value the marker. `EqualButSecrets` is equality of params up to
such values and the order of keys; equal params in this sense have one text.

Correspondence: `_canonical_params` ↔ `canonicalText`; what is not listed
keeps its name. -/
namespace Meho.Redaction

/-- `json.dumps(params, sort_keys=True, separators=(",", ":"))`. -/
def canonicalText (params : Json) : List Char := Runner.dumps (Runner.sortKeys params)

/-- The digest of the canonical text, under the server's key. -/
def computeAuditParamsHash (keyedDigest : List Char → String) (params : Json) : String :=
  keyedDigest (canonicalText (scrubSecretNamedKeys false [] params).1)

mutual
/-- Params that differ in secret-named values and the order of keys only. -/
inductive EqualButSecrets : Json → Json → Prop
  | same (value : Json) : EqualButSecrets value value
  | items {xs ys : List Json} (h : EqualItems xs ys) : EqualButSecrets (.arr xs) (.arr ys)
  | fields {fs gs : Dict} (h : EqualFields (isSecretNameValuePair [] fs) fs gs) :
    EqualButSecrets (.obj fs) (.obj gs)
  | reordered {fs gs : Dict} (hkeys : (fs.map Prod.fst).Nodup) (h : fs.Perm gs) :
    EqualButSecrets (.obj fs) (.obj gs)
  | trans {a b c : Json} (h : EqualButSecrets a b) (h' : EqualButSecrets b c) :
    EqualButSecrets a c

/-- Equal but for secrets, item by item. -/
inductive EqualItems : List Json → List Json → Prop
  | nil : EqualItems [] []
  | cons {x y : Json} {xs ys : List Json} (h : EqualButSecrets x y) (hs : EqualItems xs ys) :
    EqualItems (x :: xs) (y :: ys)

/-- Equal but for secrets, field by field. -/
inductive EqualFields : Bool → Dict → Dict → Prop
  | nil {p : Bool} : EqualFields p [] []
  | secret {p : Bool} (name : String) {v w : Json} {fs gs : Dict}
    (hname : secretNamed p name = true) (hv : isSecretValue false v = true)
    (hw : isSecretValue false w = true) (hs : EqualFields p fs gs) :
    EqualFields p ((name, v) :: fs) ((name, w) :: gs)
  | field {p : Bool} (name : String) {v w : Json} {fs gs : Dict} (h : EqualButSecrets v w)
    (hs : EqualFields p fs gs) : EqualFields p ((name, v) :: fs) ((name, w) :: gs)
end

/-! ## The pair rule reads no secret value -/

theorem EqualButSecrets.asStr?_eq {a b : Json} (h : EqualButSecrets a b) : a.asStr? = b.asStr? :=
  match h with
  | .same _ => rfl
  | .items _ => rfl
  | .fields _ => rfl
  | .reordered _ _ => rfl
  | .trans h h' => h.asStr?_eq.trans h'.asStr?_eq

theorem EqualButSecrets.isSecretValue_eq {hideNumbers : Bool} {a b : Json}
    (h : EqualButSecrets a b) : isSecretValue hideNumbers a = isSecretValue hideNumbers b :=
  match h with
  | .same _ => rfl
  | .items _ => rfl
  | .fields _ => rfl
  | .reordered _ _ => rfl
  | .trans h h' => h.isSecretValue_eq.trans h'.isSecretValue_eq

theorem dictGet_isSome_cons {fs gs : Dict} {key : String} (n : String) (v w : Json)
    (h : (dictGet fs key).isSome = (dictGet gs key).isSome) :
    (dictGet ((n, v) :: fs) key).isSome = (dictGet ((n, w) :: gs) key).isSome := by
  unfold dictGet
  by_cases hk : n = key
  · rw [if_pos hk, if_pos hk]
    rfl
  · rw [if_neg hk, if_neg hk]
    exact h

theorem EqualFields.isSome_eq {p : Bool} {fs gs : Dict} (key : String) (h : EqualFields p fs gs) :
    (dictGet fs key).isSome = (dictGet gs key).isSome :=
  match h with
  | .nil => rfl
  | .secret n _ _ _ hs | .field n _ hs => dictGet_isSome_cons n _ _ (hs.isSome_eq key)

theorem dictGetStr_cons {fs gs : Dict} {key n : String} {v w : Json}
    (hv : n = key → v.asStr? = w.asStr?) (h : dictGetStr fs key = dictGetStr gs key) :
    dictGetStr ((n, v) :: fs) key = dictGetStr ((n, w) :: gs) key := by
  unfold dictGetStr dictGet
  by_cases hk : n = key
  · rw [if_pos hk, if_pos hk]
    exact hv hk
  · rw [if_neg hk, if_neg hk]
    exact h

theorem secretNamed_ne_name {p : Bool} {n : String} (h : secretNamed p n = true) : n ≠ "name" := by
  rintro rfl
  rw [secretNamed_name] at h
  cases h

theorem EqualFields.name_eq {p : Bool} {fs gs : Dict} (h : EqualFields p fs gs) :
    dictGetStr fs "name" = dictGetStr gs "name" :=
  match h with
  | .nil => rfl
  | .secret _ hname _ _ hs =>
    dictGetStr_cons (fun hk => absurd hk (secretNamed_ne_name hname)) hs.name_eq
  | .field _ hvalue hs => dictGetStr_cons (fun _ => hvalue.asStr?_eq) hs.name_eq

theorem EqualFields.pair_eq {p : Bool} {fs gs : Dict} (h : EqualFields p fs gs) :
    isSecretNameValuePair [] gs = isSecretNameValuePair [] fs := by
  rw [isSecretNameValuePair_eq, isSecretNameValuePair_eq, h.isSome_eq, h.name_eq]

/-! ## One text -/

theorem scrubFields_eq_map (p : Bool) (fields : Dict) :
    (scrubFields false [] p fields).1 =
      fields.map fun e => (e.1, scrubbedEntry false p e.1 e.2) := by
  induction fields with
  | nil => simp [scrubFields]
  | cons e fields ih =>
    obtain ⟨name, value⟩ := e
    rw [scrubFields_cons, ih]
    rfl

theorem sortFields_eq_map (fields : Dict) :
    Runner.sortFields fields = fields.map fun e => (e.1, Runner.sortKeys e.2) := by
  induction fields with
  | nil => rfl
  | cons e fields ih =>
    obtain ⟨name, value⟩ := e
    rw [Runner.sortFields, ih]
    rfl

theorem eq_of_fst_eq {fields : Dict} (hkeys : (fields.map Prod.fst).Nodup) {e e' : String × Json}
    (he : e ∈ fields) (he' : e' ∈ fields) (h : e.1 = e'.1) : e = e' := by
  obtain ⟨name, value⟩ := e
  obtain ⟨name', value'⟩ := e'
  cases h
  have hv := (dictGet_of_mem hkeys he).symm.trans (dictGet_of_mem hkeys he')
  rw [Option.some.inj hv]

/-- Entries in the order of their keys do not tell in which order they came. -/
theorem mergeSort_keys_perm {fs gs : Dict} (hkeys : (fs.map Prod.fst).Nodup) (h : fs.Perm gs) :
    fs.mergeSort (fun a b => a.1 ≤ b.1) = gs.mergeSort fun a b => a.1 ≤ b.1 := by
  have htrans : ∀ a b c : String × Json, decide (a.1 ≤ b.1) = true → decide (b.1 ≤ c.1) = true →
      decide (a.1 ≤ c.1) = true := by
    intro a b c hab hbc
    exact decide_eq_true (String.le_trans (of_decide_eq_true hab) (of_decide_eq_true hbc))
  have htotal : ∀ a b : String × Json, (decide (a.1 ≤ b.1) || decide (b.1 ≤ a.1)) = true := by
    intro a b
    rw [Bool.or_eq_true, decide_eq_true_iff, decide_eq_true_iff]
    exact String.le_total a.1 b.1
  refine List.Perm.eq_of_pairwise ?_ (List.pairwise_mergeSort htrans htotal fs)
    (List.pairwise_mergeSort htrans htotal gs)
    ((List.mergeSort_perm fs _).trans (h.trans (List.mergeSort_perm gs _).symm))
  intro a b ha hb hab hba
  have ha' : a ∈ fs := List.mem_mergeSort.mp ha
  have hb' : b ∈ fs := h.mem_iff.mpr (List.mem_mergeSort.mp hb)
  exact eq_of_fst_eq hkeys ha' hb' (String.le_antisymm (of_decide_eq_true hab) (of_decide_eq_true hba))

theorem sortKeys_scrub_reordered {fs gs : Dict} (hkeys : (fs.map Prod.fst).Nodup)
    (h : fs.Perm gs) :
    Runner.sortKeys (scrubSecretNamedKeys false [] (.obj fs)).1 =
      Runner.sortKeys (scrubSecretNamedKeys false [] (.obj gs)).1 := by
  have hget : ∀ key, dictGet gs key = dictGet fs key := by
    intro key
    have hkeys' : (gs.map Prod.fst).Nodup := (h.map Prod.fst).nodup_iff.mp hkeys
    cases hf : dictGet fs key with
    | none =>
      rw [dictGet_eq_none] at hf ⊢
      exact fun x hx => hf x (h.mem_iff.mpr hx)
    | some value => exact dictGet_of_mem hkeys' (h.mem_iff.mp (mem_of_dictGet hf))
  have hpair : isSecretNameValuePair [] gs = isSecretNameValuePair [] fs := by
    unfold isSecretNameValuePair dictGetStr
    rw [hget, hget]
  simp only [scrubSecretNamedKeys, Runner.sortKeys, hpair, scrubFields_eq_map, sortFields_eq_map]
  refine congrArg Json.obj (mergeSort_keys_perm ?_ ((h.map _).map _))
  simpa [List.map_map, Function.comp_def] using hkeys

mutual
theorem EqualButSecrets.sortKeys_scrub {a b : Json} (h : EqualButSecrets a b) :
    Runner.sortKeys (scrubSecretNamedKeys false [] a).1 =
      Runner.sortKeys (scrubSecretNamedKeys false [] b).1 :=
  match h with
  | .same _ => rfl
  | .items hs => by
    simp only [scrubSecretNamedKeys, Runner.sortKeys]
    rw [hs.sortItems_scrub]
  | .fields hs => by
    simp only [scrubSecretNamedKeys, Runner.sortKeys, hs.pair_eq]
    rw [hs.sortFields_scrub]
  | .reordered hkeys hp => sortKeys_scrub_reordered hkeys hp
  | .trans h h' => h.sortKeys_scrub.trans h'.sortKeys_scrub

theorem EqualItems.sortItems_scrub {xs ys : List Json} (h : EqualItems xs ys) :
    Runner.sortItems (scrubItems false [] xs).1 = Runner.sortItems (scrubItems false [] ys).1 :=
  match h with
  | .nil => rfl
  | .cons hx hs => by
    simp only [scrubItems, Runner.sortItems]
    rw [hx.sortKeys_scrub, hs.sortItems_scrub]

theorem EqualFields.sortFields_scrub {p : Bool} {fs gs : Dict} (h : EqualFields p fs gs) :
    Runner.sortFields (scrubFields false [] p fs).1 =
      Runner.sortFields (scrubFields false [] p gs).1 :=
  match h with
  | .nil => rfl
  | .secret name hname hv hw hs => by
    simp only [scrubFields_cons, Runner.sortFields, scrubbedEntry, hname, hv, hw, Bool.and_self,
      if_true]
    rw [hs.sortFields_scrub]
  | .field name hvalue hs => by
    simp only [scrubFields_cons, Runner.sortFields, scrubbedEntry, hvalue.isSecretValue_eq]
    rw [hs.sortFields_scrub]
    -- under a secret-shaped name both values are the marker, elsewhere both are walked
    split
    · rfl
    · rw [hvalue.sortKeys_scrub]
end

/-- What stands under a secret-shaped name after the walk. -/
theorem scrubbed_under_secret_name {hideNumbers : Bool} {node : Json} {path : List Step}
    {fields : Dict} {name : String} {value : Json}
    (hat : valueAt (scrubSecretNamedKeys hideNumbers [] node).1 path = some (.obj fields))
    (hget : dictGet fields name = some value)
    (hname : secretNamed (isSecretNameValuePair [] fields) name = true) :
    value = .str redactedParam ∨ isSecretValue hideNumbers value = false := by
  have hfree := secretFree_at (scrub_secretFree node) hat
  rw [secretFree] at hfree
  have hvalue := hiddenValue_of_secretFreeFields hfree hget hname
  cases value with
  | str s => exact Or.inl (congrArg Json.str (beq_iff_eq.mp hvalue))
  | _ => exact Or.inr (Bool.not_eq_true' _ ▸ hvalue)

/-- **The scrub hides every secret-named value, changes no other leaf, and does so once.**
The audit hash of params does not read the values it hides. -/
theorem scrub_complete_framed_idempotent (hideNumbers : Bool) (node : Json)
    (keyedDigest : List Char → String) :
    (∀ (path : List Step) (fields : Dict) (name : String) (value : Json),
      valueAt (scrubSecretNamedKeys hideNumbers [] node).1 path = some (.obj fields) →
      dictGet fields name = some value →
      secretNamed (isSecretNameValuePair [] fields) name = true →
      value = .str redactedParam ∨ isSecretValue hideNumbers value = false) ∧
    (∀ (path : List Step) (value : Json), hiddenAlong hideNumbers node path = false →
      isLeaf value = true →
      (valueAt (scrubSecretNamedKeys hideNumbers [] node).1 path = some value ↔
        valueAt node path = some value)) ∧
    (∀ (path : List Step) (value : Json), hiddenAlong hideNumbers node path = true →
      valueAt (scrubSecretNamedKeys hideNumbers [] node).1 path = some value →
      value = .str redactedParam) ∧
    (scrubSecretNamedKeys hideNumbers [] (scrubSecretNamedKeys hideNumbers [] node).1).1 =
      (scrubSecretNamedKeys hideNumbers [] node).1 ∧
    ((scrubSecretNamedKeys hideNumbers [] node).2 = true ↔ holdsSecret hideNumbers node = true) ∧
    ∀ params params' : Json, EqualButSecrets params params' →
      computeAuditParamsHash keyedDigest params = computeAuditParamsHash keyedDigest params' := by
  refine ⟨?_, ?_, ?_, scrub_scrub node, found_eq_holdsSecret node, ?_⟩
  · intro path fields name value hat hget hname
    exact scrubbed_under_secret_name hat hget hname
  · intro path value hpath hleaf
    rw [at_scrub hpath]
    constructor
    · intro h
      obtain ⟨v, hv, heq⟩ := Option.map_eq_some_iff.mp h
      have hvleaf : isLeaf v = true := by
        rw [← heq, isLeaf_scrub] at hleaf
        exact hleaf
      rw [scrub_leaf hvleaf] at heq
      rw [hv, show v = value from heq]
    · intro h
      rw [h, Option.map_some, scrub_leaf hleaf]
  · intro path value hpath hat
    exact at_scrub_hidden hpath hat
  · intro params params' h
    unfold computeAuditParamsHash canonicalText
    -- what the hash is taken of: the scrubbed value with its keys sorted
    rw [h.sortKeys_scrub]

end Meho.Redaction
