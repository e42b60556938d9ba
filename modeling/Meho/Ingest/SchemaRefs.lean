import Meho.JsonDicts
import Meho.Lib.Worklist
import Mathlib.Data.List.Dedup
import Mathlib.Data.List.Sort
import Mathlib.Data.String.Basic

/- The component schemas that are bundled with a schema (operations/ingest/refs.py).

A reference in a schema position is found by `iterSchemaRefs`. The closure follows those
into `#/components/schemas/` from the schema through the components, each taken once, and
raises for one that goes below a component or names none. A bundled schema is then read
back: each reference is walked as a JSON pointer through the document. The walk raises where a
reference goes into a list with an index of more digits than `int` reads (`IndexTooLong`), and
`component_closure` says that nothing else keeps a bundle from being read back.

Mappings are from strings. The interpreter's recursion limit is left out.

Correspondence: each function keeps its name. -/
namespace Meho.Ingest
open Meho.Lib.Worklist

/-! ## References in schema positions -/

def schemaMapKeywords : List String :=
  ["properties", "patternProperties", "dependentSchemas", "$defs", "definitions"]

def dataValueKeywords : List String := ["enum", "const", "default", "example", "examples"]

/-- A data keyword or a vendor extension. -/
def isData (key : String) : Bool := key ∈ dataValueKeywords || "x-".toList.isPrefixOf key.toList

mutual
/-- The references of a schema, in the order of the walk. -/
def iterSchemaRefs : Json → List String
  | .arr items => itemRefs items
  | .obj fields => (dictGetStr fields "$ref").toList ++ fieldRefs fields
  | .null | .bool _ | .int _ | .float _ | .str _ => []

def itemRefs : List Json → List String
  | [] => []
  | item :: items => iterSchemaRefs item ++ itemRefs items

def fieldRefs : Dict → List String
  | [] => []
  | (key, value) :: fields => valueRefs key value ++ fieldRefs fields

/-- What the loop over the entries of a mapping does for one of them. -/
def valueRefs (key : String) : Json → List String
  | .arr items => if key = "$ref" || isData key then [] else itemRefs items
  | .obj inner =>
    if key = "$ref" then []
    else if key ∈ schemaMapKeywords then mapRefs inner
    else if key = "components" then bucketRefs inner
    else if isData key then []
    else (dictGetStr inner "$ref").toList ++ fieldRefs inner
  | .null | .bool _ | .int _ | .float _ | .str _ => []

/-- The values of a named map. -/
def mapRefs : Dict → List String
  | [] => []
  | (_, subschema) :: rest => iterSchemaRefs subschema ++ mapRefs rest

/-- The values of the mapping under the first `schemas`. -/
def bucketRefs : Dict → List String
  | [] => []
  | (key, value) :: rest => if key = "schemas" then namedRefs value else bucketRefs rest

def namedRefs : Json → List String
  | .obj schemas => mapRefs schemas
  | .arr _ | .null | .bool _ | .int _ | .float _ | .str _ => []
end

/-! ## Pointers -/

def replacePair (a b c : Char) : List Char → List Char
  | x :: y :: rest =>
    if x = a ∧ y = b then c :: replacePair a b c rest else x :: replacePair a b c (y :: rest)
  | rest => rest

def unescapePointerSegment (segment : List Char) : List Char :=
  replacePair '~' '0' '~' (replacePair '~' '1' '/' segment)

/-- `_SCHEMA_COMPONENT_REF_PREFIX`. -/
def componentPrefix : List Char := "#/components/schemas/".toList

def isComponentRef (ref : String) : Bool := componentPrefix.isPrefixOf ref.toList

/-- What follows the prefix. -/
def componentSegment (ref : String) : List Char := ref.toList.drop componentPrefix.length

/-! ## The closure -/

/-- A reference that the closure cannot take up. -/
inductive InvalidSchemaError where
  | drillDown (ref : String)
  | missing (ref : String)
  deriving DecidableEq, Repr

/-- The component that a reference names. -/
def componentName (ref : String) : Except InvalidSchemaError String :=
  let segment := componentSegment ref
  if '/' ∈ segment then .error (.drillDown ref)
  else .ok (String.ofList (unescapePointerSegment segment))

/-- The references of a schema into the components. -/
def componentRefs (schema : Json) : List String := (iterSchemaRefs schema).filter isComponentRef

def components (componentSchemas : Dict) : Table String String Json InvalidSchemaError where
  names := componentSchemas.map Prod.fst
  find := dictGet componentSchemas
  named h := List.mem_map.2 ⟨_, mem_of_dictGet h, rfl⟩
  nameOf := componentName
  missing := .missing
  refs := componentRefs

def collectComponentSchemaClosure (schema : Json) (componentSchemas : Dict) :
    Except InvalidSchemaError Dict :=
  match (components componentSchemas).collect [] (componentRefs schema).reverse with
  | .error e => .error e
  | .ok closure => .ok (closure.mergeSort fun a b => a.1 ≤ b.1)

/-! ## The pointer walk -/

/-- The digits that `int` reads at most. -/
def maxStrDigits : Nat := 4300

/-- `segment.isascii() and segment.isdigit()`. -/
def isIndex (segment : List Char) : Bool := segment ≠ [] && segment.all Char.isDigit

/-- `int(segment)` of an index, which refuses one with too many digits. -/
def arrayIndex (segment : List Char) : Except String (Option Nat) :=
  if isIndex segment then
    if maxStrDigits < segment.length then
      .error "Exceeds the limit (4300 digits) for integer string conversion"
    else .ok (some (segment.foldl (fun n c => 10 * n + (c.toNat - '0'.toNat)) 0))
  else .ok none

def walk : Json → List (List Char) → Except String Bool
  | _, [] => .ok true
  | node, raw :: rest =>
    let segment := unescapePointerSegment raw
    match node with
    | .obj fields =>
      match dictGet fields (String.ofList segment) with
      | some value => walk value rest
      | none => .ok false
    | .arr items =>
      match arrayIndex segment with
      | .error message => .error message
      | .ok index =>
        match index.bind fun i => items[i]? with
        | some value => walk value rest
        | none => .ok false
    | .null | .bool _ | .int _ | .float _ | .str _ => .ok false

/-- `ref[2:].split("/")`. -/
def pointerSegments (ref : String) : List (List Char) := (ref.toList.drop 2).splitOn '/'

def resolves (schema : Json) (ref : String) : Except String Bool :=
  if ref = "#" then .ok true
  else if "#/".toList.isPrefixOf ref.toList then walk schema (pointerSegments ref)
  else .ok false

/-- The references that do not resolve; the first one whose walk raises ends the loop. -/
def unresolvable (schema : Json) : List String → Except String (List String)
  | [] => .ok []
  | ref :: refs =>
    match resolves schema ref with
    | .error message => .error message
    | .ok true => unresolvable schema refs
    | .ok false => (unresolvable schema refs).map (ref :: ·)

def findUnresolvableLocalRefs (schema : Json) : Except String (List String) :=
  (unresolvable schema (iterSchemaRefs schema)).map fun refs => refs.dedup.mergeSort

/-- The schema with the closure placed under its own `components.schemas`. -/
def bundle (fields : Dict) (closure : Dict) : Json :=
  .obj (dictSet fields "components" (.obj [("schemas", .obj closure)]))

/-! ## Where the walk raises -/

variable {ref : String}

/-- The node that a pointer's segments lead to. -/
def nodeAt : Json → List (List Char) → Option Json
  | node, [] => some node
  | node, raw :: rest =>
    let segment := unescapePointerSegment raw
    match node with
    | .obj fields =>
      match dictGet fields (String.ofList segment) with
      | some value => nodeAt value rest
      | none => none
    | .arr items =>
      match arrayIndex segment with
      | .ok (some i) =>
        match items[i]? with
        | some value => nodeAt value rest
        | none => none
      | _ => none
    | .null | .bool _ | .int _ | .float _ | .str _ => none

def TooManyDigits (segment : List Char) : Prop :=
  isIndex segment = true ∧ maxStrDigits < segment.length

/-- The pointer goes into a list with an index of more digits than `int` reads. -/
def LeadsTooFar (node : Json) (segments : List (List Char)) : Prop :=
  ∃ before raw after items, segments = before ++ raw :: after ∧
    nodeAt node before = some (.arr items) ∧ TooManyDigits (unescapePointerSegment raw)

def IndexTooLong (schema : Json) (ref : String) : Prop :=
  "#/".toList <+: ref.toList ∧ LeadsTooFar schema (pointerSegments ref)

theorem arrayIndex_error {segment : List Char} :
    (∃ message, arrayIndex segment = .error message) ↔ TooManyDigits segment := by
  unfold arrayIndex TooManyDigits
  split
  · rename_i hindex
    split
    · rename_i hlong
      simp [hindex, hlong]
    · rename_i hlong
      simp [hlong]
  · rename_i hindex
    simp [hindex]

/-- One segment of a pointer: the rest leads too far from the node it names, or it is itself an
index that is too long. -/
theorem leadsTooFar_cons {node : Json} {raw : List Char} {rest : List (List Char)} :
    LeadsTooFar node (raw :: rest) ↔
      (∃ items, node = .arr items ∧ TooManyDigits (unescapePointerSegment raw)) ∨
        ∃ value, nodeAt node [raw] = some value ∧ LeadsTooFar value rest := by
  have hstep : ∀ before, nodeAt node (raw :: before) =
      (nodeAt node [raw]).bind fun value => nodeAt value before := by
    intro before
    cases node with
    | obj fields =>
      simp only [nodeAt]
      cases dictGet fields (String.ofList (unescapePointerSegment raw)) <;> rfl
    | arr items =>
      simp only [nodeAt]
      rcases arrayIndex (unescapePointerSegment raw) with message | _ | i
      · rfl
      · rfl
      · dsimp only
        cases items[i]? <;> rfl
    | null | bool | int | float | str => rfl
  constructor
  · rintro ⟨before, raw', after, items, hsplit, hnode, hlong⟩
    cases before with
    | nil =>
      obtain ⟨rfl, -⟩ := List.cons.inj hsplit
      exact .inl ⟨items, Option.some.inj hnode, hlong⟩
    | cons first before =>
      obtain ⟨rfl, hrest⟩ := List.cons.inj hsplit
      rw [hstep] at hnode
      obtain ⟨value, hvalue, hnode⟩ := Option.bind_eq_some_iff.1 hnode
      exact .inr ⟨value, hvalue, before, raw', after, items, hrest, hnode, hlong⟩
  · rintro (⟨items, rfl, hlong⟩ | ⟨value, hvalue, before, raw', after, items, rfl, hnode, hlong⟩)
    · exact ⟨[], raw, rest, items, rfl, rfl, hlong⟩
    · refine ⟨raw :: before, raw', after, items, rfl, ?_, hlong⟩
      rw [hstep, hvalue]
      exact hnode

theorem leadsTooFar_nil {node : Json} : ¬ LeadsTooFar node [] := by
  rintro ⟨before, raw, after, items, hsplit, -, -⟩
  exact absurd hsplit (by simp)

theorem leadsTooFar_obj {fields : Dict} {raw : List Char} {rest : List (List Char)} :
    LeadsTooFar (.obj fields) (raw :: rest) ↔ ∃ value,
      dictGet fields (String.ofList (unescapePointerSegment raw)) = some value ∧
        LeadsTooFar value rest := by
  rw [leadsTooFar_cons]
  simp only [reduceCtorEq, false_and, exists_false, false_or, nodeAt]
  cases dictGet fields (String.ofList (unescapePointerSegment raw)) <;> simp

theorem walk_error {node : Json} {segments : List (List Char)} :
    (∃ message, walk node segments = .error message) ↔ LeadsTooFar node segments := by
  induction segments generalizing node with
  | nil =>
    constructor
    · rintro ⟨message, h⟩
      cases h
    · exact fun h => absurd h leadsTooFar_nil
  | cons raw rest ih =>
    rw [leadsTooFar_cons]
    cases node with
    | null | bool | int | float | str => simp [walk, nodeAt]
    | obj fields =>
      simp only [walk, nodeAt]
      cases dictGet fields (String.ofList (unescapePointerSegment raw)) with
      | none => simp
      | some value => simpa using ih
    | arr items =>
      have hindex : (∃ message, arrayIndex (unescapePointerSegment raw) = .error message) ↔
          TooManyDigits (unescapePointerSegment raw) := arrayIndex_error
      simp only [walk, nodeAt]
      rcases harray : arrayIndex (unescapePointerSegment raw) with message | _ | i
      · rw [harray] at hindex
        simpa using hindex.1 ⟨message, rfl⟩
      · rw [harray] at hindex
        simpa using hindex
      · rw [harray] at hindex
        have hshort : ¬ TooManyDigits (unescapePointerSegment raw) := fun hlong => by
          obtain ⟨message, h⟩ := hindex.2 hlong
          cases h
        cases hitem : items[i]? with
        | none => simp [hitem, hshort]
        | some value => simpa [hitem, hshort] using ih

theorem resolves_error {schema : Json} :
    (∃ message, resolves schema ref = .error message) ↔ IndexTooLong schema ref := by
  unfold resolves IndexTooLong
  by_cases hself : ref = "#"
  · subst hself
    simp
  · rw [if_neg hself]
    by_cases hlocal : "#/".toList <+: ref.toList
    · rw [if_pos (List.isPrefixOf_iff_prefix.2 hlocal), walk_error]
      exact (and_iff_right hlocal).symm
    · rw [if_neg fun h => hlocal (List.isPrefixOf_iff_prefix.1 h)]
      constructor
      · rintro ⟨message, h⟩
        cases h
      · exact fun h => absurd h.1 hlocal

theorem unresolvable_error {schema : Json} {refs : List String} :
    (∃ message, unresolvable schema refs = .error message) ↔
      ∃ ref ∈ refs, ∃ message, resolves schema ref = .error message := by
  induction refs with
  | nil => simp [unresolvable]
  | cons ref refs ih =>
    rw [List.exists_mem_cons_iff, ← ih, unresolvable]
    rcases resolves schema ref with message | _ | _
    · simp
    · cases unresolvable schema refs <;> simp [Except.map]
    · simp

theorem mem_unresolvable {schema : Json} {refs found : List String}
    (h : unresolvable schema refs = .ok found) (href : ref ∈ found) :
    ref ∈ refs ∧ resolves schema ref = .ok false := by
  induction refs generalizing found with
  | nil =>
    cases h
    cases href
  | cons first refs ih =>
    rw [unresolvable] at h
    split at h
    · cases h
    · obtain ⟨hmem, hres⟩ := ih h href
      exact ⟨List.mem_cons_of_mem _ hmem, hres⟩
    · rename_i hfirst
      cases hrest : unresolvable schema refs with
      | error message =>
        rw [hrest] at h
        cases h
      | ok rest =>
        rw [hrest] at h
        cases h
        rcases List.mem_cons.1 href with rfl | href
        · exact ⟨List.mem_cons_self, hfirst⟩
        · obtain ⟨hmem, hres⟩ := ih hrest href
          exact ⟨List.mem_cons_of_mem _ hmem, hres⟩

/-! ## The closure -/

variable {componentSchemas closure : Dict}

theorem perm_closure {schema : Json}
    (h : collectComponentSchemaClosure schema componentSchemas = .ok closure) :
    ∃ walked, (components componentSchemas).collect [] (componentRefs schema).reverse =
      .ok walked ∧ closure = walked.mergeSort fun a b => a.1 ≤ b.1 := by
  unfold collectComponentSchemaClosure at h
  split at h
  · cases h
  · rename_i walked hwalked
    exact ⟨walked, hwalked, (Except.ok.inj h).symm⟩

/-- What the closure is for a schema and the components. -/
structure Bundles (schema : Json) (componentSchemas closure : Dict) : Prop where
  verbatim : ∀ e ∈ closure, dictGet componentSchemas e.1 = some e.2
  distinct : (closure.map Prod.fst).Nodup
  sorted : closure.Pairwise fun a b => a.1 ≤ b.1
  least : IsLeast {S | Table.Closed (components componentSchemas) (componentRefs schema) S}
    {name | name ∈ closure.map Prod.fst}
  reached : ∀ e ∈ closure, ∃ ref,
    Table.Reachable (components componentSchemas) (componentRefs schema) ref ∧
      (components componentSchemas).target ref = .ok e
  complete : ∀ ref, Table.Reachable (components componentSchemas) (componentRefs schema) ref →
    ∃ e ∈ closure, (components componentSchemas).target ref = .ok e

theorem closure_bundles {schema : Json}
    (h : collectComponentSchemaClosure schema componentSchemas = .ok closure) :
    Bundles schema componentSchemas closure := by
  obtain ⟨walked, hwalked, rfl⟩ := perm_closure h
  obtain ⟨hverbatim, hdistinct, hleast, hreached, hcomplete⟩ := Table.collect_ok hwalked
  have hperm := List.mergeSort_perm walked fun a b => decide (a.1 ≤ b.1)
  have hnames : ∀ name, name ∈ (walked.mergeSort fun a b => a.1 ≤ b.1).map Prod.fst ↔
      name ∈ walked.map Prod.fst := fun name => (hperm.map Prod.fst).mem_iff
  refine ⟨fun e he => hverbatim e (hperm.mem_iff.1 he), ?_, ?_, ?_,
    fun e he => hreached e (hperm.mem_iff.1 he), ?_⟩
  · exact (hperm.map Prod.fst).nodup_iff.2 hdistinct
  · have htrans : ∀ a b c : String × Json, decide (a.1 ≤ b.1) = true →
        decide (b.1 ≤ c.1) = true → decide (a.1 ≤ c.1) = true := by
      simp only [decide_eq_true_eq]
      exact fun a b c => le_trans
    have htotal : ∀ a b : String × Json, (decide (a.1 ≤ b.1) || decide (b.1 ≤ a.1)) = true := by
      intro a b
      simpa using le_total a.1 b.1
    exact (List.pairwise_mergeSort htrans htotal walked).imp fun h => of_decide_eq_true h
  · simp only [hnames]
    exact hleast
  · intro ref hreach
    obtain ⟨e, he, hto⟩ := hcomplete ref hreach
    exact ⟨e, hperm.mem_iff.2 he, hto⟩

/-- The reference goes below a component or names none. -/
def Broken (componentSchemas : Dict) (ref : String) : InvalidSchemaError → Prop
  | .drillDown of => of = ref ∧ '/' ∈ componentSegment ref
  | .missing of => of = ref ∧ '/' ∉ componentSegment ref ∧
      dictGet componentSchemas (String.ofList (unescapePointerSegment (componentSegment ref))) = none

theorem broken_of_target {e : InvalidSchemaError}
    (h : (components componentSchemas).target ref = .error e) : Broken componentSchemas ref e := by
  have hname : (components componentSchemas).nameOf ref = componentName ref := rfl
  unfold Table.target at h
  rw [hname] at h
  by_cases hslash : '/' ∈ componentSegment ref
  · rw [componentName, if_pos hslash] at h
    cases h
    exact ⟨rfl, hslash⟩
  · rw [componentName, if_neg hslash] at h
    simp only at h
    split at h
    · rename_i hnone
      cases h
      exact ⟨rfl, hslash, hnone⟩
    · cases h

/-! ## The bundled schema -/

variable {fields : Dict}

theorem fieldRefs_dictSet (h : dictGet fields "components" = none) (value : Json) :
    fieldRefs (dictSet fields "components" value) =
      fieldRefs fields ++ valueRefs "components" value := by
  induction fields with
  | nil => simp [dictSet, fieldRefs]
  | cons entry fields ih =>
    obtain ⟨key, inner⟩ := entry
    by_cases hkey : key = "components"
    · rw [hkey, dictGet_cons, if_pos rfl] at h
      cases h
    · rw [dictGet_cons, if_neg hkey] at h
      rw [dictSet, if_neg hkey, fieldRefs, fieldRefs, ih h, List.append_assoc]

theorem mem_mapRefs {schemas : Dict} :
    ref ∈ mapRefs schemas ↔ ∃ e ∈ schemas, ref ∈ iterSchemaRefs e.2 := by
  induction schemas with
  | nil => simp [mapRefs]
  | cons entry schemas ih =>
    obtain ⟨key, value⟩ := entry
    simp [mapRefs, ih]

theorem mem_bundle (h : dictGet fields "components" = none) :
    ref ∈ iterSchemaRefs (bundle fields closure) ↔
      ref ∈ iterSchemaRefs (.obj fields) ∨ ∃ e ∈ closure, ref ∈ iterSchemaRefs e.2 := by
  have hvalue : valueRefs "components" (.obj [("schemas", .obj closure)]) = mapRefs closure := by
    have hkind : "components" ∉ schemaMapKeywords := by decide
    simp [valueRefs, hkind, bucketRefs, namedRefs]
  have hown : dictGetStr (dictSet fields "components" (.obj [("schemas", .obj closure)])) "$ref" =
      dictGetStr fields "$ref" := by
    rw [dictGetStr, dictGet_dictSet_ne (by decide), dictGetStr]
  rw [bundle, iterSchemaRefs, hown, fieldRefs_dictSet h, hvalue, ← List.append_assoc,
    List.mem_append, mem_mapRefs, iterSchemaRefs]

/-- A component reference is split at the two slashes of its prefix. -/
theorem pointerSegments_component (h : isComponentRef ref = true) :
    pointerSegments ref =
      "components".toList :: "schemas".toList :: (componentSegment ref).splitOn '/' := by
  obtain ⟨segment, hsegment⟩ := List.isPrefixOf_iff_prefix.1 h
  have hdrop : componentSegment ref = segment := by
    rw [componentSegment, ← hsegment]
    exact List.drop_left
  have hrest : ref.toList.drop 2 =
      "components".toList ++ '/' :: ("schemas".toList ++ '/' :: segment) := by
    rw [← hsegment]
    rfl
  rw [pointerSegments, hdrop, hrest, List.splitOn_append_cons_self_of_not_mem (by decide),
    List.splitOn_append_cons_self_of_not_mem (by decide)]

/-- A reference into the components that is split there has their prefix. -/
theorem isComponentRef_of_segments {segment : List Char} {rest : List (List Char)}
    (hlocal : "#/".toList <+: ref.toList)
    (h : pointerSegments ref = "components".toList :: "schemas".toList :: segment :: rest) :
    isComponentRef ref = true := by
  obtain ⟨pointer, hpointer⟩ := hlocal
  have hdrop : ref.toList.drop 2 = pointer := by
    rw [← hpointer]
    rfl
  have hjoined : ['/'].intercalate (pointerSegments ref) = ref.toList.drop 2 :=
    List.intercalate_splitOn _
  rw [h, hdrop] at hjoined
  have hparts : ∀ first second : List Char,
      ['/'].intercalate (first :: second :: segment :: rest) =
        (first ++ '/' :: (second ++ ['/'])) ++ ['/'].intercalate (segment :: rest) := by
    intro first second
    simp [List.intercalate]
  have hprefix : componentPrefix =
      "#/".toList ++ ("components".toList ++ '/' :: ("schemas".toList ++ ['/'])) := by decide
  refine List.isPrefixOf_iff_prefix.2 ⟨['/'].intercalate (segment :: rest), ?_⟩
  rw [← hpointer, ← hjoined, hparts, hprefix, List.append_assoc]

theorem resolves_component {e : String × Json} (h : isComponentRef ref = true)
    (hname : componentName ref = .ok e.1) (he : e ∈ closure) :
    resolves (bundle fields closure) ref = .ok true := by
  have hslash : '/' ∉ componentSegment ref := by
    intro hslash
    rw [componentName, if_pos hslash] at hname
    cases hname
  rw [componentName, if_neg hslash] at hname
  injection hname with hname
  have hlocal : "#/".toList.isPrefixOf ref.toList = true :=
    List.isPrefixOf_iff_prefix.2
      ((by decide : "#/".toList <+: componentPrefix).trans (List.isPrefixOf_iff_prefix.1 h))
  have hplain : ∀ name ∈ ["components", "schemas"],
      String.ofList (unescapePointerSegment name.toList) = name := by decide
  obtain ⟨value, hvalue⟩ := Option.isSome_iff_exists.1
    (isSome_dictGet.2 (List.mem_map.2 ⟨e, he, rfl⟩))
  have hwalk : walk (bundle fields closure)
      ["components".toList, "schemas".toList, componentSegment ref] = .ok true := by
    simp only [bundle, walk, hplain "components" (by simp), hplain "schemas" (by simp),
      dictGet_dictSet, dictGet_cons, if_true, hname, hvalue]
  rw [resolves, pointerSegments_component h, List.splitOn_eq_singleton hslash, hwalk, hlocal]
  simp

/-! ## Pointers into a bundle -/

theorem replacePair_of_not_mem {a b c : Char} : ∀ {text : List Char},
    c ∉ replacePair a b c text → replacePair a b c text = text
  | [], _ | [_], _ => rfl
  | x :: y :: rest, h => by
    rw [replacePair] at h ⊢
    split at h
    · exact absurd List.mem_cons_self h
    · rename_i hother
      rw [if_neg hother, replacePair_of_not_mem fun hmem => h (List.mem_cons_of_mem _ hmem)]

theorem replacePair_of_no_first {a b c : Char} : ∀ {text : List Char},
    a ∉ text → replacePair a b c text = text
  | [], _ | [_], _ => rfl
  | x :: y :: rest, h => by
    have hrest : a ∉ y :: rest := fun hmem => h (List.mem_cons_of_mem x hmem)
    have hpair : ¬ (x = a ∧ y = b) := fun hpair => h (hpair.1 ▸ List.mem_cons_self)
    rw [replacePair, if_neg hpair, replacePair_of_no_first hrest]

/-- A name without slash and tilde is written as it is. -/
theorem eq_of_unescape {raw name : List Char} (h : unescapePointerSegment raw = name)
    (htilde : '~' ∉ name) (hslash : '/' ∉ name) : raw = name := by
  have houter : replacePair '~' '0' '~' (replacePair '~' '1' '/' raw) = name := h
  have hinner : replacePair '~' '1' '/' raw = name := by
    rw [← houter] at htilde ⊢
    exact (replacePair_of_not_mem htilde).symm
  rw [← hinner] at hslash ⊢
  exact (replacePair_of_not_mem hslash).symm

/-- Outside the components a bundle is walked as the schema is, and a reference of another kind
finds no list in them. -/
theorem leadsTooFar_bundle (hcomponents : dictGet fields "components" = none)
    (hlocal : "#/".toList <+: ref.toList) (h : isComponentRef ref = false) :
    LeadsTooFar (bundle fields closure) (pointerSegments ref) ↔
      LeadsTooFar (.obj fields) (pointerSegments ref) := by
  cases hsegments : pointerSegments ref with
  | nil => exact iff_of_false leadsTooFar_nil leadsTooFar_nil
  | cons raw rest =>
    rw [bundle, leadsTooFar_obj, leadsTooFar_obj]
    by_cases hname : String.ofList (unescapePointerSegment raw) = "components"
    · rw [hname, dictGet_dictSet, hcomponents]
      refine iff_of_false ?_ (by simp)
      rintro ⟨value, hvalue, hfar⟩
      obtain rfl := Option.some.inj hvalue
      cases rest with
      | nil => exact leadsTooFar_nil hfar
      | cons raw' rest =>
        obtain ⟨schemas, hschemas, hfar⟩ := leadsTooFar_obj.1 hfar
        rw [dictGet_cons] at hschemas
        split at hschemas
        · rename_i hname'
          obtain rfl := Option.some.inj hschemas
          cases rest with
          | nil => exact leadsTooFar_nil hfar
          | cons segment rest =>
            -- two plain names before a third segment are the prefix of a component reference
            have hraw : raw = "components".toList := by
              refine eq_of_unescape ?_ (by decide) (by decide)
              rw [← hname, String.toList_ofList]
            have hraw' : raw' = "schemas".toList := by
              refine eq_of_unescape ?_ (by decide) (by decide)
              rw [hname', String.toList_ofList]
            rw [hraw, hraw'] at hsegments
            rw [isComponentRef_of_segments hlocal hsegments] at h
            cases h
        · cases hschemas
    · rw [dictGet_dictSet_ne hname]

theorem indexTooLong_bundle (hcomponents : dictGet fields "components" = none)
    (h : isComponentRef ref = false) :
    IndexTooLong (bundle fields closure) ref ↔ IndexTooLong (.obj fields) ref :=
  and_congr_right fun hlocal => leadsTooFar_bundle hcomponents hlocal h

/-! ## Collected and read back -/

/-- The walk over the components gives their closure, or raises for a reference that is broken. -/
def Collects (schema : Json) (componentSchemas : Dict) : Prop :=
  match collectComponentSchemaClosure schema componentSchemas with
  | .error e => ∃ ref,
      Table.Reachable (components componentSchemas) (componentRefs schema) ref ∧
        Broken componentSchemas ref e
  | .ok closure => Bundles schema componentSchemas closure

/-- No reference into the components is reported of a schema with its closure. -/
def ReadsBack (schema : Json) (componentSchemas : Dict) : Prop :=
  ∀ closure fields, collectComponentSchemaClosure schema componentSchemas = .ok closure →
    schema = .obj fields → dictGet fields "components" = none →
    ∃ refs, findUnresolvableLocalRefs (bundle fields closure) = .ok refs ∧
      ∀ ref ∈ refs, isComponentRef ref = false

/-- A reference in a schema position of the schema or of a component that it needs. -/
def Referred (schema : Json) (componentSchemas : Dict) (ref : String) : Prop :=
  ref ∈ iterSchemaRefs schema ∨ ∃ via e,
    Table.Reachable (components componentSchemas) (componentRefs schema) via ∧
      (components componentSchemas).target via = .ok e ∧ ref ∈ iterSchemaRefs e.2

/-- Of a schema that is bundled, no reference goes into one of its lists with an index of more
digits than `int` reads. -/
def ShortIndices (schema : Json) (componentSchemas : Dict) : Prop :=
  ∀ fields, schema = .obj fields → dictGet fields "components" = none →
    (∀ via, Table.Reachable (components componentSchemas) (componentRefs schema) via →
      ∃ e, (components componentSchemas).target via = .ok e) →
    ∀ ref, Referred schema componentSchemas ref → ¬ IndexTooLong schema ref

theorem collects (schema : Json) (componentSchemas : Dict) : Collects schema componentSchemas := by
  unfold Collects
  cases hclosure : collectComponentSchemaClosure schema componentSchemas with
  | ok closure => exact closure_bundles hclosure
  | error e =>
    unfold collectComponentSchemaClosure at hclosure
    split at hclosure
    · rename_i e' hwalked
      cases hclosure
      obtain ⟨ref, hreach, htarget⟩ := Table.collect_error hwalked
      exact ⟨ref, hreach, broken_of_target htarget⟩
    · cases hclosure

theorem collects_ok_iff {schema : Json} :
    (∃ closure, collectComponentSchemaClosure schema componentSchemas = .ok closure) ↔
      ∀ via, Table.Reachable (components componentSchemas) (componentRefs schema) via →
        ∃ e, (components componentSchemas).target via = .ok e := by
  constructor
  · rintro ⟨closure, hclosure⟩ via hvia
    obtain ⟨e, -, hto⟩ := (closure_bundles hclosure).complete via hvia
    exact ⟨e, hto⟩
  · intro h
    cases hwalked : (components componentSchemas).collect [] (componentRefs schema).reverse with
    | ok walked => exact ⟨_, by rw [collectComponentSchemaClosure, hwalked]⟩
    | error e =>
      obtain ⟨ref, hreach, htarget⟩ := Table.collect_error hwalked
      obtain ⟨e', hto⟩ := h ref hreach
      rw [htarget] at hto
      cases hto

section
variable (hclosure : collectComponentSchemaClosure (.obj fields) componentSchemas = .ok closure)
    (hcomponents : dictGet fields "components" = none)
include hclosure hcomponents

/-- A bundle refers to what the schema and the components that it needs refer to. -/
theorem mem_bundle_iff :
    ref ∈ iterSchemaRefs (bundle fields closure) ↔ Referred (.obj fields) componentSchemas ref := by
  have hbundles := closure_bundles hclosure
  rw [mem_bundle hcomponents]
  refine or_congr_right ⟨?_, ?_⟩
  · rintro ⟨e, he, href⟩
    obtain ⟨via, hvia, hto⟩ := hbundles.reached e he
    exact ⟨via, e, hvia, hto, href⟩
  · rintro ⟨via, e, hvia, hto, href⟩
    obtain ⟨e', he', hto'⟩ := hbundles.complete via hvia
    obtain rfl := Except.ok.inj (hto.symm.trans hto')
    exact ⟨e, he', href⟩

/-- Its references into the components resolve. -/
theorem resolves_of_component (hcomponent : isComponentRef ref = true)
    (href : ref ∈ iterSchemaRefs (bundle fields closure)) :
    resolves (bundle fields closure) ref = .ok true := by
  have hreach : Table.Reachable (components componentSchemas)
      (componentRefs (.obj fields)) ref := by
    rcases (mem_bundle_iff hclosure hcomponents).1 href with hown | ⟨via, e, hvia, hto, hinner⟩
    · exact .start (List.mem_filter.2 ⟨hown, hcomponent⟩)
    · -- a bundled component is there because a chain of references led to it
      exact hvia.step hto (List.mem_filter.2 ⟨hinner, hcomponent⟩)
  obtain ⟨e, he, hto⟩ := (closure_bundles hclosure).complete ref hreach
  exact resolves_component hcomponent (Table.target_ok.1 hto).1 he

/-- Reading the bundle back raises for one of the references only. -/
theorem findUnresolvable_error :
    (∃ message, findUnresolvableLocalRefs (bundle fields closure) = .error message) ↔
      ∃ ref, Referred (.obj fields) componentSchemas ref ∧ IndexTooLong (.obj fields) ref := by
  have hfind : (∃ message, findUnresolvableLocalRefs (bundle fields closure) = .error message) ↔
      ∃ message, unresolvable (bundle fields closure)
        (iterSchemaRefs (bundle fields closure)) = .error message := by
    unfold findUnresolvableLocalRefs
    cases unresolvable (bundle fields closure) (iterSchemaRefs (bundle fields closure)) <;>
      simp [Except.map]
  rw [hfind, unresolvable_error]
  refine exists_congr fun ref => ?_
  rw [mem_bundle_iff hclosure hcomponents]
  refine and_congr_right fun href => ?_
  rw [resolves_error]
  cases hcomponent : isComponentRef ref with
  | false => exact indexTooLong_bundle hcomponents hcomponent
  | true =>
    have hresolves := resolves_of_component hclosure hcomponents hcomponent
      ((mem_bundle_iff hclosure hcomponents).2 href)
    refine iff_of_false (fun hlong => ?_) (fun hlong => ?_)
    · obtain ⟨message, herror⟩ := resolves_error.2 hlong
      rw [hresolves] at herror
      cases herror
    · -- the schema has no components to go into
      have hinto := hlong.2
      rw [pointerSegments_component hcomponent, leadsTooFar_obj] at hinto
      obtain ⟨value, hvalue, -⟩ := hinto
      have hname : String.ofList (unescapePointerSegment "components".toList) = "components" := by
        decide
      rw [hname, hcomponents] at hvalue
      cases hvalue

end

/-- **The closure of a schema**: it is collected or a broken reference is raised for, for every
schema; and it is read back exactly where no index is too long. -/
theorem component_closure (schema : Json) (componentSchemas : Dict) :
    Collects schema componentSchemas ∧
      (ReadsBack schema componentSchemas ↔ ShortIndices schema componentSchemas) := by
  refine ⟨collects schema componentSchemas, ?_, ?_⟩
  · rintro hreads fields rfl hcomponents hall ref href hlong
    obtain ⟨closure, hclosure⟩ := collects_ok_iff.2 hall
    obtain ⟨refs, hrefs, -⟩ := hreads closure fields hclosure rfl hcomponents
    obtain ⟨message, herror⟩ := (findUnresolvable_error hclosure hcomponents).2 ⟨ref, href, hlong⟩
    rw [hrefs] at herror
    cases herror
  · rintro hshort closure fields hclosure rfl hcomponents
    cases hfound : findUnresolvableLocalRefs (bundle fields closure) with
    | error message =>
      obtain ⟨ref, href, hlong⟩ :=
        (findUnresolvable_error hclosure hcomponents).1 ⟨message, hfound⟩
      exact absurd hlong
        (hshort fields rfl hcomponents (collects_ok_iff.1 ⟨closure, hclosure⟩) ref href)
    | ok refs =>
      refine ⟨refs, rfl, fun ref href => ?_⟩
      cases hwalked : unresolvable (bundle fields closure)
          (iterSchemaRefs (bundle fields closure)) with
      | error message =>
        rw [findUnresolvableLocalRefs, hwalked] at hfound
        cases hfound
      | ok found =>
        rw [findUnresolvableLocalRefs, hwalked] at hfound
        obtain rfl := Except.ok.inj hfound
        have hmem : ref ∈ found := by simpa using href
        obtain ⟨hrefers, hnot⟩ := mem_unresolvable hwalked hmem
        cases hcomponent : isComponentRef ref with
        | false => rfl
        | true =>
          rw [resolves_of_component hclosure hcomponents hcomponent hrefers] at hnot
          cases hnot

/-- One digit more than `int` reads. -/
def ones : List Char := List.replicate (maxStrDigits + 1) '1'

theorem not_mem_ones {c : Char} (h : c ≠ '1') : c ∉ ones := fun hmem =>
  h (List.eq_of_mem_replicate hmem)

/-- A reference into the list of a schema. -/
def longIndexRef : String := String.ofList ("#/allOf/".toList ++ ones)

def listSchema (ref : String) : Dict := [("allOf", .arr [.obj []]), ("$ref", .str ref)]

theorem indexTooLong_sample : IndexTooLong (.obj (listSchema longIndexRef)) longIndexRef := by
  have htext : longIndexRef.toList = "#/allOf/".toList ++ ones := String.toList_ofList
  have hsegments : pointerSegments longIndexRef = ["allOf".toList, ones] := by
    have hrest : longIndexRef.toList.drop 2 = "allOf".toList ++ '/' :: ones := by
      rw [htext]
      rfl
    rw [pointerSegments, hrest, List.splitOn_append_cons_self_of_not_mem (by decide),
      List.splitOn_eq_singleton (not_mem_ones (by decide))]
  have hplain : unescapePointerSegment ones = ones := by
    have htilde : '~' ∉ ones := not_mem_ones (by decide)
    rw [unescapePointerSegment, replacePair_of_no_first htilde, replacePair_of_no_first htilde]
  refine ⟨⟨"allOf/".toList ++ ones, ?_⟩, ["allOf".toList],
    ones, [], [.obj []], hsegments, ?_, ?_⟩
  · rw [htext]
    rfl
  · have hname : String.ofList (unescapePointerSegment "allOf".toList) = "allOf" := by decide
    simp only [nodeAt, hname, listSchema, dictGet_cons, if_true]
  · rw [hplain]
    exact ⟨by simp [isIndex, ones], by simp [ones]⟩

/-- The walk raises where it is to report. -/
theorem long_index_raises : ¬ ReadsBack (.obj (listSchema longIndexRef)) [] := by
  intro hreads
  have hrefs : ∀ ref, iterSchemaRefs (.obj (listSchema ref)) = [ref] := fun _ => rfl
  have hnone : dictGet (listSchema longIndexRef) "components" = none := rfl
  have hother : isComponentRef longIndexRef = false := by
    have happ : ∀ rest, componentPrefix.isPrefixOf ("#/allOf/".toList ++ rest) = false :=
      fun _ => rfl
    have htext : longIndexRef.toList = "#/allOf/".toList ++ ones := String.toList_ofList
    rw [isComponentRef, htext]
    exact happ ones
  have hclosure : collectComponentSchemaClosure (.obj (listSchema longIndexRef)) [] = .ok [] := by
    rw [collectComponentSchemaClosure, componentRefs, hrefs,
      List.filter_cons_of_neg (by simp [hother])]
    simp [Table.collect]
  obtain ⟨refs, hfound, -⟩ := hreads [] (listSchema longIndexRef) hclosure rfl hnone
  have href : Referred (.obj (listSchema longIndexRef)) [] longIndexRef :=
    .inl (by rw [hrefs]; exact List.mem_singleton_self _)
  obtain ⟨message, herror⟩ := (findUnresolvable_error hclosure hnone).2
    ⟨longIndexRef, href, indexTooLong_sample⟩
  rw [hfound] at herror
  cases herror

end Meho.Ingest
