import Meho.Redaction.PolicyReplay

/- What a shadow policy reports (redaction/engine.py, redaction/policy.py).

A shadow policy is a trial: its manifest is to be the one the policy would write if it were
enforced. A rule of an enforced policy looks at what the rules before it left, a rule of a
shadow policy at the payload as it came, so the two manifests agree exactly when no rule's
matches depend on the replacements made before it.

A payload is to a rule its texts and its lists of texts (`passages`), each on its own: a
passage has spans where a pattern matches it, and is another passage with them replaced
(`Passage.replaced`). A rule's entries are its matches in the passages (`walk_manifest`), and an
enforced rule replaces them there (`passages_walk`), so that what depends on what is said of the
passages alone (`MatchesUntouched`).

Correspondence: `_rule_names_unique` ↔ the hypothesis on the rules' names; the other names are
the engine's. -/
namespace Meho.Redaction

/-! ## The texts of a payload -/

/-- What a rule looks at as one: a text, or the rows of a list of texts. -/
inductive Passage where
  | text (path leaf : String)
  | list (path : String) (rows : List String)
  deriving DecidableEq, Repr

mutual
def passages (path : String) : Json → List Passage
  | .str leaf => [.text path leaf]
  | .obj fields => passagesOfFields path fields
  | .arr items =>
    match rowsOf? items with
    | some rows => [.list path rows]
    | none => passagesOfItems path 0 items
  | _ => []

def passagesOfFields (path : String) : Dict → List Passage
  | [] => []
  | (key, value) :: fields => passages (joinPath path key) value ++ passagesOfFields path fields

def passagesOfItems (path : String) (index : Nat) : List Json → List Passage
  | [] => []
  | item :: items =>
    passages (joinPath path (toString index)) item ++ passagesOfItems path (index + 1) items
end

/-- The matches in one text or row: where it stands, how many they are, the first of them. -/
structure PatternMatches where
  path : String
  count : Nat
  first : Nat × Nat
  deriving DecidableEq, Repr

def matchesOfSpans (path : String) : List (Nat × Nat) → List PatternMatches
  | [] => []
  | first :: spans => [⟨path, (first :: spans).length, first⟩]

/-- Row by row, from number `index` on. -/
def matchesOfRows (path : String) : Nat → List (List (Nat × Nat)) → List PatternMatches
  | _, [] => []
  | index, spans :: rest =>
    matchesOfSpans (joinPath path (toString index)) spans ++ matchesOfRows path (index + 1) rest

/-- The parts of the matches that fall into each row, the first of which starts at `offset`. -/
def rowParts : Nat → List (Nat × Nat) → List String → List (List (Nat × Nat))
  | _, _, [] => []
  | offset, spans, row :: rows =>
    let spans := spans.dropWhile (·.2 ≤ offset)
    let stop := offset + row.length
    rowSpans offset stop spans :: rowParts (stop + 1) spans rows

section Passages
variable (tools : RedactionTools)

/-- The spans of a pattern in the rows of a list: it is matched against the joined text. -/
def spansInRows (pattern : String) (rows : List String) : List (List (Nat × Nat)) :=
  rowParts 0 (tools.secretSpans pattern (joinRows rows)) rows

def Passage.found (pattern : String) : Passage → List PatternMatches
  | .text path leaf => matchesOfSpans path (tools.secretSpans pattern leaf)
  | .list path rows => matchesOfRows path 0 (spansInRows tools pattern rows)

/-- The passage with a rule's spans replaced. -/
def Passage.replaced (rule : RedactionRule) : Passage → Passage
  | .text path leaf =>
    .text path (replaceSpans tools rule leaf 0 (tools.secretSpans rule.pattern leaf))
  | .list path rows =>
    .list path (rows.zipWith (replaceSpans tools rule · 0) (spansInRows tools rule.pattern rows))

/-- One rule's spans after the other's. -/
def Passage.replacedBy (rules : List RedactionRule) (passage : Passage) : Passage :=
  rules.foldl (fun passage rule => passage.replaced tools rule) passage

end Passages

/-- No match of a rule depends on the replacements of the rules before it: the rule's pattern
matches the same texts and rows of the payload, each as often and first at the same span, when
in every one of them the spans of the rules before are replaced. -/
def MatchesUntouched (tools : RedactionTools) (rules : List RedactionRule) (payload : Json) : Prop :=
  ∀ before rule after, rules = before ++ rule :: after →
    (passages "" payload).flatMap (fun p => (p.replacedBy tools before).found tools rule.pattern) =
      (passages "" payload).flatMap fun p => p.found tools rule.pattern

/-! ## One rule -/

/-- A rule's entry for its matches in a text. -/
def RedactionRule.entry (rule : RedactionRule) (found : PatternMatches) : RedactionManifestEntry :=
  ⟨rule.name, rule.pattern, rule.action, found.count, found.first, rule.reason, found.path⟩

theorem RedactionRule.entry_injective (rule : RedactionRule) :
    Function.Injective rule.entry := by
  intro found other h
  simp only [entry, RedactionManifestEntry.mk.injEq, true_and] at h
  obtain ⟨hcount, hfirst, hpath⟩ := h
  cases found
  cases other
  simp_all

section Walk
variable {tools : RedactionTools} (mutate : Bool) (rule : RedactionRule)

theorem replaceSpans_nil (leaf : String) : replaceSpans tools rule leaf 0 [] = leaf := by
  rw [replaceSpans, slice, List.drop_zero, Nat.sub_zero, ← String.length_toList, List.take_length,
    String.ofList_toList]

theorem applySpans_eq (path leaf : String) (spans : List (Nat × Nat)) :
    applySpans tools mutate rule path leaf spans =
      (if mutate then replaceSpans tools rule leaf 0 spans else leaf,
        (matchesOfSpans path spans).map rule.entry) := by
  cases spans with
  | nil => simp [applySpans, matchesOfSpans, replaceSpans_nil]
  | cons first spans => rfl

theorem rewriteRows_eq (path : String) (index offset : Nat) (spans : List (Nat × Nat))
    (rows : List String) :
    rewriteRows tools mutate rule path index offset spans rows =
      (if mutate then rows.zipWith (replaceSpans tools rule · 0) (rowParts offset spans rows)
        else rows,
        (matchesOfRows path index (rowParts offset spans rows)).map rule.entry) := by
  induction rows generalizing index offset spans with
  | nil => cases mutate <;> rfl
  | cons row rows ih =>
    simp only [rewriteRows, rowParts, matchesOfRows, applySpans_eq, ih, List.map_append]
    cases mutate <;> rfl

mutual
/-- A rule writes down its pattern's matches, whether it replaces them or not. -/
theorem walk_manifest (path : String) : ∀ node : Json,
    (walkAndApply tools mutate rule path node).2 =
      ((passages path node).flatMap (·.found tools rule.pattern)).map rule.entry
  | .str leaf => by
    simp only [walkAndApply, applyToStr, applySpans_eq, passages, List.flatMap_singleton,
      Passage.found]
  | .obj fields => by
    simp only [walkAndApply, passages]
    exact walkFields_manifest path fields
  | .arr items => by
    simp only [walkAndApply, passages]
    cases hrows : rowsOf? items with
    | some rows =>
      simp only [applyToRows, rewriteRows_eq, List.flatMap_singleton, Passage.found, spansInRows]
    | none => exact walkItems_manifest path 0 items
  | .null | .bool _ | .int _ | .float _ => rfl

theorem walkFields_manifest (path : String) : ∀ fields : Dict,
    (walkFields tools mutate rule path fields).2 =
      ((passagesOfFields path fields).flatMap (·.found tools rule.pattern)).map rule.entry
  | [] => rfl
  | (key, value) :: fields => by
    simp only [walkFields, passagesOfFields, List.flatMap_append, List.map_append,
      walk_manifest _ value, walkFields_manifest path fields]

theorem walkItems_manifest (path : String) (index : Nat) : ∀ items : List Json,
    (walkItems tools mutate rule path index items).2 =
      ((passagesOfItems path index items).flatMap (·.found tools rule.pattern)).map rule.entry
  | [] => rfl
  | item :: items => by
    simp only [walkItems, passagesOfItems, List.flatMap_append, List.map_append,
      walk_manifest _ item, walkItems_manifest path (index + 1) items]
end

/-- What a run of a rule leaves of a passage. -/
def Passage.leave (tools : RedactionTools) (mutate : Bool) (rule : RedactionRule)
    (passage : Passage) : Passage :=
  if mutate then passage.replaced tools rule else passage

theorem rowParts_length (offset : Nat) (spans : List (Nat × Nat)) (rows : List String) :
    (rowParts offset spans rows).length = rows.length := by
  induction rows generalizing offset spans with
  | nil => rfl
  | cons row rows ih => simp only [rowParts, List.length_cons, ih]

/-- Rows stay rows, as many as they were. -/
theorem rowsOf?_map_str {rows : List String} (hlen : 1 < rows.length) :
    rowsOf? (rows.map .str) = some rows := by
  have hall : ∀ texts : List String, (texts.map Json.str).mapM Json.asStr? = some texts := by
    intro texts
    induction texts with
    | nil => rfl
    | cons text texts ih =>
      rw [List.map_cons, List.mapM_cons, ih]
      rfl
  rw [rowsOf?, List.length_map, if_pos hlen, hall]

theorem length_rowsOf? {items : List Json} {rows : List String} (h : rowsOf? items = some rows) :
    1 < rows.length := by
  have hitems := map_str_rowsOf? h
  unfold rowsOf? at h
  split at h
  · rename_i hlen
    rwa [← hitems, List.length_map] at hlen
  · cases h

mutual
/-- The walk keeps the passages, and replaces a rule's spans in each or in none. -/
theorem passages_walk (path : String) : ∀ node : Json,
    passages path (walkAndApply tools mutate rule path node).1 =
      (passages path node).map (Passage.leave tools mutate rule)
  | .str leaf => by
    simp only [walkAndApply, applyToStr, applySpans_eq, passages, List.map_singleton]
    cases mutate <;> rfl
  | .obj fields => by
    simp only [walkAndApply, passages]
    exact passages_walkFields path fields
  | .arr items => by
    simp only [walkAndApply]
    cases hrows : rowsOf? items with
    | some rows =>
      simp only [passages, hrows, applyToRows, rewriteRows_eq, List.map_singleton]
      have hlen := length_rowsOf? hrows
      cases mutate with
      | false => simp only [Bool.false_eq_true, if_false, rowsOf?_map_str hlen, Passage.leave]
      | true =>
        have hkept : 1 < (rows.zipWith (replaceSpans tools rule · 0)
            (rowParts 0 (tools.secretSpans rule.pattern (joinRows rows)) rows)).length := by
          rw [List.length_zipWith, rowParts_length, Nat.min_self]
          exact hlen
        simp only [if_true, rowsOf?_map_str hkept, Passage.leave, Passage.replaced, spansInRows]
    | none =>
      simp only [passages, hrows, rowsOf?_walkItems rule path 0 hrows]
      exact passages_walkItems path 0 items
  | .null | .bool _ | .int _ | .float _ => rfl

theorem passages_walkFields (path : String) : ∀ fields : Dict,
    passagesOfFields path (walkFields tools mutate rule path fields).1 =
      (passagesOfFields path fields).map (Passage.leave tools mutate rule)
  | [] => rfl
  | (key, value) :: fields => by
    simp only [walkFields, passagesOfFields, List.map_append, passages_walk _ value,
      passages_walkFields path fields]

theorem passages_walkItems (path : String) (index : Nat) : ∀ items : List Json,
    passagesOfItems path index (walkItems tools mutate rule path index items).1 =
      (passagesOfItems path index items).map (Passage.leave tools mutate rule)
  | [] => rfl
  | item :: items => by
    simp only [walkItems, passagesOfItems, List.map_append, passages_walk _ item,
      passages_walkItems path (index + 1) items]
end

end Walk

/-! ## Rule by rule -/

section Rules
variable (tools : RedactionTools)

/-- The manifest of the rules over passages. -/
def manifestOf (mutate : Bool) : List RedactionRule → List Passage → List RedactionManifestEntry
  | [], _ => []
  | rule :: rules, texts =>
    (texts.flatMap (·.found tools rule.pattern)).map rule.entry ++
      manifestOf mutate rules (texts.map (Passage.leave tools mutate rule))

variable {tools} {mutate : Bool} {rules : List RedactionRule}

theorem runRules_manifest (node : Json) :
    (runRules tools mutate rules "" node).2 = manifestOf tools mutate rules (passages "" node) := by
  induction rules generalizing node with
  | nil => rfl
  | cons rule rules ih => simp only [runRules, manifestOf, walk_manifest, ih, passages_walk]

theorem names_of_manifest {texts : List Passage} {e : RedactionManifestEntry}
    (he : e ∈ manifestOf tools mutate rules texts) : e.rule ∈ rules.map (·.name) := by
  induction rules generalizing texts with
  | nil => cases he
  | cons rule rules ih =>
    rcases List.mem_append.mp he with hfirst | hrest
    · obtain ⟨found, -, rfl⟩ := List.mem_map.mp hfirst
      exact List.mem_cons_self
    · exact List.mem_cons_of_mem _ (ih hrest)

/-- The entries of the first rule are those with its name. -/
theorem filter_manifest_cons {rule : RedactionRule} {texts : List Passage}
    (hname : rule.name ∉ rules.map (·.name)) :
    (manifestOf tools mutate (rule :: rules) texts).filter (·.rule = rule.name) =
      (texts.flatMap (·.found tools rule.pattern)).map rule.entry := by
  have hfirst : ∀ founds : List PatternMatches,
      (founds.map rule.entry).filter (·.rule = rule.name) = founds.map rule.entry := fun founds =>
    List.filter_eq_self.mpr fun e he => by
      obtain ⟨found, -, rfl⟩ := List.mem_map.mp he
      exact decide_eq_true rfl
  have hrest : (manifestOf tools mutate rules (texts.map (Passage.leave tools mutate rule))).filter
      (·.rule = rule.name) = [] :=
    List.filter_eq_nil_iff.mpr fun e he hsame => by
      have hmem := names_of_manifest he
      rw [of_decide_eq_true hsame] at hmem
      exact hname hmem
  rw [manifestOf, List.filter_append, hfirst, hrest, List.append_nil]

theorem forall_split_cons {rule : RedactionRule} {P : List RedactionRule → RedactionRule → Prop} :
    (∀ before next after, rule :: rules = before ++ next :: after → P before next) ↔
      P [] rule ∧
        ∀ before next after, rules = before ++ next :: after → P (rule :: before) next := by
  constructor
  · intro h
    refine ⟨h [] rule rules rfl, fun before next after hsplit => ?_⟩
    exact h (rule :: before) next after (by rw [hsplit, List.cons_append])
  · rintro ⟨hfirst, hrest⟩ before next after hsplit
    cases before with
    | nil =>
      obtain ⟨rfl, -⟩ := List.cons.inj hsplit
      exact hfirst
    | cons other before =>
      obtain ⟨rfl, hsame⟩ := List.cons.inj hsplit
      exact hrest before next after hsame

/-- Rules with names of their own write two manifests that are equal rule by rule or not at
all: `texts` is what the enforced rules look at, `others` what the shadowed ones do. -/
theorem manifestOf_eq_iff (hnames : (rules.map (·.name)).Nodup) (texts others : List Passage) :
    manifestOf tools true rules texts = manifestOf tools false rules others ↔
      ∀ before rule after, rules = before ++ rule :: after →
        texts.flatMap (fun p => (p.replacedBy tools before).found tools rule.pattern) =
          others.flatMap fun p => p.found tools rule.pattern := by
  induction rules generalizing texts with
  | nil => simp [manifestOf]
  | cons rule rules ih =>
    obtain ⟨hname, hnames⟩ := List.nodup_cons.mp hnames
    have hkept : others.map (Passage.leave tools false rule) = others := List.map_id _
    have hrest := ih hnames (texts.map (Passage.leave tools true rule))
    simp only [List.flatMap_map] at hrest
    rw [forall_split_cons]
    constructor
    · intro hsame
      have hfirst := congrArg (List.filter (·.rule = rule.name)) hsame
      rw [filter_manifest_cons hname, filter_manifest_cons hname] at hfirst
      rw [manifestOf, manifestOf, hfirst, hkept] at hsame
      exact ⟨List.map_injective_iff.mpr rule.entry_injective hfirst,
        hrest.mp (List.append_cancel_left hsame)⟩
    · rintro ⟨hfirst, hlater⟩
      rw [manifestOf, manifestOf, hkept, hrest.mpr hlater]
      exact congrArg (List.map rule.entry · ++ _) hfirst

end Rules

/-! ## The trial and the policy enforced -/

theorem shadow_manifest_iff (tools : RedactionTools) (payload : Json) (policy : RedactionPolicy)
    (labels : CallLabels) (hnames : (policy.rules.map (·.name)).Nodup) :
    (redact tools payload { policy with mode := .shadow } labels).2 =
        (redact tools payload { policy with mode := .enforce } labels).2 ↔
      MatchesUntouched tools (policy.applicable labels) payload := by
  have happlicable : ((policy.applicable labels).map (·.name)).Nodup :=
    hnames.sublist (List.filter_sublist.map _)
  show (runRules tools false (policy.applicable labels) "" payload).2 =
    (runRules tools true (policy.applicable labels) "" payload).2 ↔ _
  rw [runRules_manifest, runRules_manifest, eq_comm]
  exact manifestOf_eq_iff happlicable _ _

/-- Tokens are masked, and reported by a second rule of the same pattern. -/
def maskAndReport : RedactionPolicy where
  id := "tokens"
  mode := .shadow
  rules := [⟨"mask-jwt", "jwt", .mask, ⟨none, none, none⟩, "JWT in payload body"⟩,
    ⟨"strip-jwt", "jwt", .redact, ⟨none, none, none⟩, "JWT in payload body"⟩]
  tier2 := []
  id_ne := by decide

/-- The second rule finds no token once the first has masked it. -/
theorem shadow_reports_more :
    ∃ (tools : RedactionTools) (payload : Json) (policy : RedactionPolicy) (labels : CallLabels),
      (policy.rules.map (·.name)).Nodup ∧
      (redact tools payload { policy with mode := .shadow } labels).2 ≠
        (redact tools payload { policy with mode := .enforce } labels).2 :=
  ⟨sampleTools, .obj [("token", .str sampleJwt)], maskAndReport, ⟨none, none, none⟩,
    by decide, by decide +kernel⟩

/-- The pattern of a token and the pattern of an address do not meet. -/
theorem shadow_manifest_iff_log :
    let policy : RedactionPolicy := { stripJwt with
      rules := stripJwt.rules ++ watchPodIps.rules }
    let payload : Json := .obj [("podIP", .str "10.0.0.1"), ("log", .str sampleJwt)]
    let labels : CallLabels := ⟨some "k8s-1.x", none, none⟩
    (redact sampleTools payload { policy with mode := .shadow } labels).2 =
      (redact sampleTools payload { policy with mode := .enforce } labels).2 := by
  intro policy payload labels
  refine (shadow_manifest_iff sampleTools payload policy labels (by decide)).mpr ?_
  refine forall_split_cons.mpr ⟨rfl, forall_split_cons.mpr ⟨?_, ?_⟩⟩
  · -- the address with the token replaced beside it
    decide +kernel
  · intro before rule after hsplit
    exact absurd (congrArg List.length hsplit) (by simp)

end Meho.Redaction
