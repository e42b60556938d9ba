import Meho.Runbook.Runs
import Meho.Runbook.Tokens

/- What the checks of a template and of a run's parameters promise for the run.

A step's texts are of two kinds. Some are filled in: the body, the prompt and the
values of parameters and expectations. The others are shown as they are: ids,
titles, operation ids and the keys of mappings. `StepRuns` says that a step and its
verify call can be built, and that no token of the template is left in a text that
is shown or dispatched. `StepSound` is what a template and the values of a run have
to meet for that; `runs_iff_sound` says that it is exactly this. The checks do not
ask for it: they accept a template with no steps, tokens in titles, prompts and
keys, a line break before a closing brace, and a target that reads as a parameter.

Correspondence: `start_run` ↔ `startRun` (its rows are `startDb`); what is not listed
keeps its name. -/
namespace Meho.Runbook
open Meho.Lib

/-! ## The start of a run -/

/-- The parameters a text names. -/
def collectParamRefs (text : String) : List String :=
  (findAll id runParamsPattern text.toList).map String.ofList

mutual
def walkCollect : Json → List String
  | .str text => collectParamRefs text
  | .obj fields => walkFields fields
  | .arr items => walkItems items
  | _ => []

def walkItems : List Json → List String
  | [] => []
  | item :: items => walkCollect item ++ walkItems items

def walkFields : List (String × Json) → List String
  | [] => []
  | (_, value) :: fields => walkCollect value ++ walkFields fields
end

def Step.paramRefs (step : Step) : List String :=
  collectParamRefs step.body ++
    (match step.verify with
      | .operationCall opId params expect =>
        collectParamRefs opId ++ walkFields params ++ walkFields expect
      | .confirm prompt => collectParamRefs prompt) ++
    match step.action with
      | .operationCall opId params => collectParamRefs opId ++ walkFields params
      | .manual => []

inductive StartError where
  | missingParams (text : String)
  | indexError
  | engine (e : EngineError)

def validateParamsAgainstTemplate (body : RunbookTemplateBody) (params : Dict) :
    Except StartError Unit :=
  let missing := (body.steps.flatMap Step.paramRefs).filter fun name =>
    (dictGet params name).isNone
  if missing.isEmpty then .ok ()
  else .error (.missingParams ("template references run.params not supplied at start: " ++
    String.intercalate ", " (missing.eraseDups.mergeSort fun a b => decide (a ≤ b))))

/-- The first step that is shown. A template without steps has none. -/
def startRun (py : Python) (template : AcceptedTemplate) (target : String) (params : Dict) :
    Except StartError StepBody := do
  validateParamsAgainstTemplate template.body params
  match template.body.steps with
  | [] => throw .indexError
  | first :: _ => (currentStepBody py target params template.body first.id).mapError .engine

/-! ## The texts of a step -/

mutual
/-- The texts among the values. -/
def valueTexts : Json → List String
  | .str text => [text]
  | .obj fields => fieldTexts fields
  | .arr items => itemTexts items
  | _ => []

def itemTexts : List Json → List String
  | [] => []
  | item :: items => valueTexts item ++ itemTexts items

def fieldTexts : List (String × Json) → List String
  | [] => []
  | (_, value) :: fields => valueTexts value ++ fieldTexts fields
end

mutual
/-- The keys of the mappings. -/
def keyTexts : Json → List String
  | .obj fields => fieldKeys fields
  | .arr items => itemKeys items
  | _ => []

def itemKeys : List Json → List String
  | [] => []
  | item :: items => keyTexts item ++ itemKeys items

def fieldKeys : List (String × Json) → List String
  | [] => []
  | (key, value) :: fields => key :: (keyTexts value ++ fieldKeys fields)
end

def StepAction.filled : StepAction → List String
  | .operationCall _ params => fieldTexts params
  | .manual => []

def Verify.filled : Verify → List String
  | .confirm prompt => [prompt]
  | .operationCall _ params expect => fieldTexts params ++ fieldTexts expect

def StepAction.keys : StepAction → List String
  | .operationCall _ params => fieldKeys params
  | .manual => []

def Verify.keys : Verify → List String
  | .confirm _ => []
  | .operationCall _ params expect => fieldKeys params ++ fieldKeys expect

def StepAction.opIds : StepAction → List String
  | .operationCall opId _ => [opId]
  | .manual => []

def Verify.opIds : Verify → List String
  | .confirm _ => []
  | .operationCall opId _ _ => [opId]

/-- The texts of a template's step that are filled in. -/
def Step.filled (step : Step) : List String :=
  step.body :: (step.verify.filled ++ step.action.filled)

def StepBody.filled (shown : StepBody) : List String :=
  shown.body :: (shown.verify.filled ++ shown.action.filled)

def Step.keys (step : Step) : List String := step.verify.keys ++ step.action.keys

/-- The texts of a shown step that are as the template has them. -/
def StepBody.verbatim (shown : StepBody) : List String :=
  shown.id :: shown.title :: (shown.verify.opIds ++ shown.action.opIds ++
    (shown.verify.keys ++ shown.action.keys))

/-! ## Building a step -/

section Build
variable (py : Python) (target : String) (params : Dict)

/-- What comes of one text. -/
def Resolved (text out : String) : Prop := resolveString py.str target params text = .ok out

mutual
theorem resolveSubstitutions_ok : ∀ (v out : Json),
    resolveSubstitutions py.str target params v = .ok out →
      keyTexts out = keyTexts v ∧
        List.Forall₂ (Resolved py target params) (valueTexts v) (valueTexts out)
  | .str text, out, h => by
    obtain ⟨resolved, hresolved, h⟩ := bind_ok h
    cases h
    exact ⟨rfl, .cons hresolved .nil⟩
  | .obj fields, out, h => by
    obtain ⟨resolved, hresolved, h⟩ := bind_ok h
    cases h
    exact resolveFields_ok fields resolved hresolved
  | .arr items, out, h => by
    obtain ⟨resolved, hresolved, h⟩ := bind_ok h
    cases h
    exact resolveItems_ok items resolved hresolved
  | .null, out, h | .bool _, out, h | .int _, out, h | .float _, out, h =>
      by cases h; exact ⟨rfl, .nil⟩

theorem resolveItems_ok : ∀ (items out : List Json),
    resolveItems py.str target params items = .ok out →
      itemKeys out = itemKeys items ∧
        List.Forall₂ (Resolved py target params) (itemTexts items) (itemTexts out)
  | [], out, h => by cases h; exact ⟨rfl, .nil⟩
  | item :: items, out, h => by
    obtain ⟨resolved, hresolved, h⟩ := bind_ok h
    obtain ⟨rest, hrest, h⟩ := bind_ok h
    cases h
    obtain ⟨hkeys, htexts⟩ := resolveSubstitutions_ok item resolved hresolved
    obtain ⟨hkeys', htexts'⟩ := resolveItems_ok items rest hrest
    refine ⟨?_, List.rel_append htexts htexts'⟩
    simp only [itemKeys, hkeys, hkeys']

theorem resolveFields_ok : ∀ (fields out : List (String × Json)),
    resolveFields py.str target params fields = .ok out →
      fieldKeys out = fieldKeys fields ∧
        List.Forall₂ (Resolved py target params) (fieldTexts fields) (fieldTexts out)
  | [], out, h => by cases h; exact ⟨rfl, .nil⟩
  | (key, value) :: fields, out, h => by
    obtain ⟨resolved, hresolved, h⟩ := bind_ok h
    obtain ⟨rest, hrest, h⟩ := bind_ok h
    cases h
    obtain ⟨hkeys, htexts⟩ := resolveSubstitutions_ok value resolved hresolved
    obtain ⟨hkeys', htexts'⟩ := resolveFields_ok fields rest hrest
    refine ⟨?_, List.rel_append htexts htexts'⟩
    simp only [fieldKeys, hkeys, hkeys']
end

/-- The text can be filled in. -/
def Resolves (text : String) : Prop := ∃ out, Resolved py target params text out

mutual
theorem resolveSubstitutions_of_texts : ∀ v : Json,
    (∀ text ∈ valueTexts v, Resolves py target params text) →
      ∃ out, resolveSubstitutions py.str target params v = .ok out
  | .str text, h => by
    obtain ⟨out, hout⟩ := h text List.mem_cons_self
    unfold Resolved at hout
    exact ⟨.str out, by simp only [resolveSubstitutions, hout]; rfl⟩
  | .obj fields, h => by
    obtain ⟨out, hout⟩ := resolveFields_of_texts fields h
    exact ⟨.obj out, by simp only [resolveSubstitutions, hout]; rfl⟩
  | .arr items, h => by
    obtain ⟨out, hout⟩ := resolveItems_of_texts items h
    exact ⟨.arr out, by simp only [resolveSubstitutions, hout]; rfl⟩
  | .null, _ => ⟨.null, rfl⟩
  | .bool b, _ => ⟨.bool b, rfl⟩
  | .int i, _ => ⟨.int i, rfl⟩
  | .float text, _ => ⟨.float text, rfl⟩

theorem resolveItems_of_texts : ∀ items : List Json,
    (∀ text ∈ itemTexts items, Resolves py target params text) →
      ∃ out, resolveItems py.str target params items = .ok out
  | [], _ => ⟨[], rfl⟩
  | item :: items, h => by
    obtain ⟨out, hout⟩ := resolveSubstitutions_of_texts item fun text ht =>
      h text (List.mem_append_left _ ht)
    obtain ⟨rest, hrest⟩ := resolveItems_of_texts items fun text ht =>
      h text (List.mem_append_right _ ht)
    exact ⟨out :: rest, by simp only [resolveItems, hout, hrest]; rfl⟩

theorem resolveFields_of_texts : ∀ fields : List (String × Json),
    (∀ text ∈ fieldTexts fields, Resolves py target params text) →
      ∃ out, resolveFields py.str target params fields = .ok out
  | [], _ => ⟨[], rfl⟩
  | (key, value) :: fields, h => by
    obtain ⟨out, hout⟩ := resolveSubstitutions_of_texts value fun text ht =>
      h text (List.mem_append_left _ ht)
    obtain ⟨rest, hrest⟩ := resolveFields_of_texts fields fun text ht =>
      h text (List.mem_append_right _ ht)
    exact ⟨(key, out) :: rest, by simp only [resolveFields, hout, hrest]; rfl⟩
end

theorem keyed_of_ok {α : Type} {x : Except String α} {a : α} (h : x = .ok a) : keyed x = .ok a := by
  rw [h]
  rfl

theorem buildStepBodyVerify_ok {verify shown : Verify}
    (h : buildStepBodyVerify py target params verify = .ok shown) :
    shown.keys = verify.keys ∧ shown.opIds = verify.opIds ∧
      List.Forall₂ (Resolved py target params) verify.filled shown.filled := by
  cases verify with
  | confirm prompt =>
    obtain ⟨out, hout, h⟩ := bind_ok h
    cases h
    exact ⟨rfl, rfl, .cons (keyed_ok hout) .nil⟩
  | operationCall opId callParams expect =>
    obtain ⟨out, hout, h⟩ := bind_ok h
    obtain ⟨out', hout', h⟩ := bind_ok h
    cases h
    obtain ⟨hkeys, htexts⟩ := resolveFields_ok py target params _ _ (keyed_ok hout)
    obtain ⟨hkeys', htexts'⟩ := resolveFields_ok py target params _ _ (keyed_ok hout')
    refine ⟨?_, rfl, List.rel_append htexts htexts'⟩
    simp only [Verify.keys, hkeys, hkeys']

/-- A shown step has the template's texts, some filled in and the others as they are. -/
theorem buildStepBody_ok {step : Step} {shown : StepBody}
    (h : buildStepBody py target params step = .ok shown) :
    shown.verbatim = step.id :: step.title :: (step.verify.opIds ++ step.action.opIds ++ step.keys) ∧
      List.Forall₂ (Resolved py target params) step.filled shown.filled := by
  unfold buildStepBody at h
  obtain ⟨body, hbody, h⟩ := bind_ok h
  obtain ⟨verify, hverify, h⟩ := bind_ok h
  obtain ⟨hkeys, hops, htexts⟩ := buildStepBodyVerify_ok py target params hverify
  split at h
  · rename_i opId callParams haction
    obtain ⟨out, hout, h⟩ := bind_ok h
    cases h
    obtain ⟨hkeys', htexts'⟩ := resolveFields_ok py target params _ _ (keyed_ok hout)
    unfold StepBody.verbatim StepBody.filled Step.filled Step.keys
    rw [haction]
    refine ⟨?_, .cons (keyed_ok hbody) (List.rel_append htexts htexts')⟩
    simp only [StepAction.keys, StepAction.opIds, hkeys, hops, hkeys']
  · rename_i haction
    cases h
    unfold StepBody.verbatim StepBody.filled Step.filled Step.keys
    rw [haction]
    refine ⟨?_, .cons (keyed_ok hbody) (List.rel_append htexts .nil)⟩
    simp only [StepAction.keys, StepAction.opIds, hkeys, hops]

theorem buildStepBody_of_texts {step : Step}
    (h : ∀ text ∈ step.filled, Resolves py target params text) :
    ∃ shown, buildStepBody py target params step = .ok shown := by
  obtain ⟨body, hbody⟩ := h step.body List.mem_cons_self
  have hrest : ∀ text ∈ step.verify.filled ++ step.action.filled,
      Resolves py target params text := fun text ht => h text (List.mem_cons_of_mem _ ht)
  have hverify : ∃ verify, buildStepBodyVerify py target params step.verify = .ok verify := by
    have htexts : ∀ text ∈ step.verify.filled, Resolves py target params text :=
      fun text ht => hrest text (List.mem_append_left _ ht)
    generalize step.verify = verify at htexts
    cases verify with
    | confirm prompt =>
      obtain ⟨out, hout⟩ := htexts prompt List.mem_cons_self
      exact ⟨.confirm out, by simp only [buildStepBodyVerify, keyed_of_ok hout]; rfl⟩
    | operationCall opId callParams expect =>
      obtain ⟨out, hout⟩ := resolveFields_of_texts py target params callParams fun text ht =>
        htexts text (List.mem_append_left _ ht)
      obtain ⟨out', hout'⟩ := resolveFields_of_texts py target params expect fun text ht =>
        htexts text (List.mem_append_right _ ht)
      exact ⟨.operationCall opId out out', by
        simp only [buildStepBodyVerify, keyed_of_ok hout, keyed_of_ok hout']; rfl⟩
  obtain ⟨verify, hverify⟩ := hverify
  unfold buildStepBody
  rw [keyed_of_ok hbody, hverify]
  cases haction : step.action with
  | operationCall opId callParams =>
    obtain ⟨out, hout⟩ := resolveFields_of_texts py target params callParams fun text ht =>
      hrest text (List.mem_append_right _ (by rw [haction]; exact ht))
    refine ⟨⟨step.id, step.title, body, .operationCall opId out, verify⟩, ?_⟩
    change (keyed (resolveFields py.str target params callParams) >>= _) = _
    rw [keyed_of_ok hout]
    rfl
  | manual => exact ⟨⟨step.id, step.title, body, .manual, verify⟩, rfl⟩

end Build

/-! ## What the validator has seen -/

variable {g : List Char}

theorem takeWhile_closed (h : tokenClose ∉ g) (rest : List Char) :
    (g ++ tokenClose :: rest).takeWhile (· ≠ tokenClose) = g := by
  have hall : ∀ c ∈ g, decide (c ≠ tokenClose) = true := by
    intro c hc
    exact decide_eq_true fun heq => h (heq ▸ hc)
  rw [List.takeWhile_append_of_pos hall, List.takeWhile_cons_of_neg (by decide), List.append_nil]

theorem substitutionPattern_open (behind : List Char) :
    substitutionPattern (tokenOpen ++ behind) =
      if (behind.drop (behind.takeWhile (· ≠ tokenClose)).length).head? = some tokenClose then
        some ((behind.takeWhile (· ≠ tokenClose)).length + 3, behind.takeWhile (· ≠ tokenClose))
      else none := by
  have hdrop : (tokenOpen ++ behind).drop 2 = behind := rfl
  unfold substitutionPattern
  rw [if_pos (List.isPrefixOf_iff_prefix.mpr (List.prefix_append _ _))]
  dsimp only
  rw [← List.drop_drop, hdrop]

theorem substitutionPattern_token (h : tokenClose ∉ g) (rest : List Char) :
    substitutionPattern (token g ++ rest) = some ((token g).length, g) := by
  have hsplit : token g ++ rest = tokenOpen ++ (g ++ tokenClose :: rest) := by simp [token]
  have hlen : (token g).length = g.length + 3 := by
    simp only [token, tokenOpen, List.length_append, List.length_cons, List.length_nil]
    omega
  rw [hsplit, substitutionPattern_open, takeWhile_closed h, List.drop_left, hlen]
  rfl

variable {s : List Char}

theorem substitutionPattern_some {n : Nat} (h : substitutionPattern s = some (n, g)) :
    tokenClose ∉ g ∧ n = (token g).length ∧ ∃ rest, s = token g ++ rest := by
  by_cases hfront : tokenOpen <+: s
  · obtain ⟨behind, rfl⟩ := hfront
    rw [substitutionPattern_open] at h
    have hbehind := (List.takeWhile_append_dropWhile (p := (· ≠ tokenClose)) (l := behind)).symm
    have hclosed : tokenClose ∉ behind.takeWhile (· ≠ tokenClose) := by
      intro hmem
      have hne := List.all_eq_true.mp List.all_takeWhile _ hmem
      exact absurd rfl (of_decide_eq_true hne)
    generalize behind.takeWhile (· ≠ tokenClose) = t at *
    generalize behind.dropWhile (· ≠ tokenClose) = d at *
    subst hbehind
    rw [List.drop_left] at h
    split at h
    · rename_i hhead
      cases h
      cases d with
      | nil => cases hhead
      | cons c d =>
        cases hhead
        refine ⟨hclosed, ?_, d, by simp [token]⟩
        simp only [token, tokenOpen, List.length_append, List.length_cons, List.length_nil]
        omega
    · cases h
  · unfold substitutionPattern at h
    rw [if_neg fun hp => hfront (List.isPrefixOf_iff_prefix.mp hp)] at h
    cases h

variable {a x : List Char}

theorem nil_or_open {rest : List Char} (h : a ++ (tokenOpen ++ rest) = tokenOpen ++ x) :
    a = [] ∨ ∃ y, a = tokenOpen ++ y := by
  cases a with
  | nil => exact .inl rfl
  | cons c a =>
    obtain ⟨rfl, htail⟩ := List.cons.inj h
    cases a with
    | nil =>
      have hd : '$' = '\x7b' := (List.cons.inj htail).1
      exact absurd hd (by decide)
    | cons d a =>
      obtain ⟨rfl, -⟩ := List.cons.inj htail
      exact .inr ⟨a, rfl⟩

theorem closed_split {y z : List Char} (hx : tokenClose ∉ x) (hy : tokenClose ∈ y)
    (h : x ++ tokenClose :: s = y ++ z) : ∃ y', s = y' ++ z := by
  rcases List.append_eq_append_iff.mp h with ⟨d, rfl, hd⟩ | ⟨d, rfl, -⟩
  · cases d with
    | nil =>
      rw [List.append_nil] at hy
      exact absurd hy hx
    | cons c d => exact ⟨d, (List.cons.inj hd).2⟩
  · exact absurd (List.mem_append_left d hy) hx

variable {inner b : List Char}

/-- What a token in front of a text has to do with another one of the text: it is behind it, it
is the same, or it is within it. -/
theorem TokenAt.of_front {rest : List Char} (hg : tokenClose ∉ g)
    (h : TokenAt (token g ++ rest) a inner b) :
    (∃ a', TokenAt rest a' inner b) ∨ g = inner ∨ tokenOpen <:+: g := by
  have hsplit : tokenOpen ++ (g ++ tokenClose :: rest) =
      a ++ (tokenOpen ++ (inner ++ tokenClose :: b)) := by
    simpa [token] using h.split
  rcases nil_or_open hsplit.symm with rfl | ⟨y, rfl⟩
  · rw [List.nil_append, List.append_cancel_left_eq] at hsplit
    exact .inr (.inl (closed_inj hg h.closed hsplit))
  · rw [List.append_assoc, List.append_cancel_left_eq] at hsplit
    by_cases hy : tokenClose ∈ y
    · obtain ⟨a', hrest⟩ := closed_split hg hy hsplit
      exact .inl ⟨a', by rw [hrest]; simp, h.closed⟩
    · have hgy := closed_inj hg (y := y ++ tokenOpen ++ inner) ?_ (s := rest) (t := b) (by
        simpa using hsplit)
      · exact .inr (.inr ⟨y, inner, hgy.symm⟩)
      · simp only [List.mem_append, not_or]
        exact ⟨⟨hy, by decide⟩, h.closed⟩

theorem exists_match (h : TokenAt s a inner b) :
    ∃ g ∈ findAll id substitutionPattern s, g = inner ∨ tokenOpen <:+: g := by
  -- on the length of the text, since a match skips its whole token
  induction hn : s.length using Nat.strongRecOn generalizing s a with
  | ind n ih =>
    cases hmatch : substitutionPattern s with
    | none =>
      cases a with
      | nil =>
        have hat : substitutionPattern s = some ((token inner).length, inner) := by
          rw [h.split]
          exact substitutionPattern_token h.closed b
        rw [hmatch] at hat
        cases hat
      | cons c a =>
        obtain ⟨hsplit, hclosed⟩ := h
        rw [List.cons_append] at hsplit
        subst hsplit
        have hfind : findAll id substitutionPattern
            (c :: (a ++ (tokenOpen ++ inner ++ [tokenClose] ++ b))) =
            findAll id substitutionPattern (a ++ (tokenOpen ++ inner ++ [tokenClose] ++ b)) := by
          unfold findAll
          simp only [pieces, List.map_id, hmatch]
          rfl
        rw [hfind]
        refine ih _ ?_ ⟨rfl, hclosed⟩ rfl
        rw [← hn, List.length_cons]
        exact Nat.lt_succ_self _
    | some found =>
      obtain ⟨m, g⟩ := found
      obtain ⟨hg, rfl, rest, rfl⟩ := substitutionPattern_some hmatch
      have hfind : findAll id substitutionPattern (token g ++ rest) =
          g :: findAll id substitutionPattern rest := by
        unfold findAll
        rw [pieces_hit (x := token g) id substitutionPattern (by rintro ⟨⟩)
          (by rw [List.map_id]; exact hmatch)]
        rfl
      rw [hfind]
      -- the token is behind the match, or the match runs into it
      rcases TokenAt.of_front hg h with ⟨a', hrest⟩ | hwithin
      · have hlt : rest.length < n := by
          rw [← hn, List.length_append]
          simp only [token, List.length_append, List.length_singleton]
          omega
        obtain ⟨g', hmem, hg'⟩ := ih _ hlt hrest rfl
        exact ⟨g', List.mem_cons_of_mem _ hmem, hg'⟩
      · exact ⟨g, List.mem_cons_self, hwithin⟩

theorem dollar_not_mem_paramsPath {name : List Char} (h : isName name = true) :
    '$' ∉ paramsPath ++ name ++ ['\n'] := by
  simp only [List.mem_append, not_or]
  exact ⟨⟨by decide, isName_ne_dollar h⟩, by decide⟩

theorem dollar_mem_of_open (h : tokenOpen <:+: x) : '$' ∈ x := by
  obtain ⟨p, q, rfl⟩ := h
  simp [tokenOpen]

/-- A line break in front of the closing brace of a parameter's token. -/
def LineBroken (text : List Char) : Prop :=
  ∃ a name b, isName name = true ∧ TokenAt text a (paramsPath ++ name ++ ['\n']) b

theorem isAllowed_cases (h : isAllowed inner = true) :
    Exact inner ∨ ∃ name, isName name = true ∧ inner = paramsPath ++ name ++ ['\n'] := by
  unfold isAllowed at h
  rw [Bool.or_eq_true] at h
  rcases h with h | h
  · exact .inl (.inl (of_decide_eq_true h))
  · unfold isParamPath at h
    rw [Bool.and_eq_true] at h
    obtain ⟨hfront, h⟩ := h
    obtain ⟨behind, rfl⟩ := List.isPrefixOf_iff_prefix.mp hfront
    rw [List.drop_left] at h
    split at h
    · rename_i name rest hname
      obtain ⟨hisName, rfl⟩ := paramName_some hname
      rw [Bool.or_eq_true, decide_eq_true_eq, decide_eq_true_eq] at h
      rcases h with rfl | rfl
      · exact .inl (.inr ⟨name, hisName, by rw [List.append_nil]⟩)
      · exact .inr ⟨name, hisName, by rw [List.append_assoc]⟩
    · cases h

theorem isAllowed_no_open (h : isAllowed inner = true) : ¬ tokenOpen <:+: inner := by
  intro hopen
  have hdollar := dollar_mem_of_open hopen
  rcases isAllowed_cases h with (rfl | ⟨name, hname, rfl⟩) | ⟨name, hname, rfl⟩
  · exact absurd hdollar (by decide)
  · exact dollar_not_mem_paramsPath hname (List.mem_append_left _ hdollar)
  · exact dollar_not_mem_paramsPath hname hdollar

/-- A line break is no part of a name. -/
theorem not_exact_broken {name : List Char} : ¬ Exact (paramsPath ++ name ++ ['\n']) := by
  rintro (htarget | ⟨other, hother, heq⟩)
  · have hchar := congrArg (·[4]?) htarget
    rw [List.append_assoc, List.getElem?_append_left (by decide)] at hchar
    exact absurd hchar (by decide)
  · rw [List.append_assoc, List.append_cancel_left_eq] at heq
    subst heq
    unfold isName at hother
    rw [Bool.and_eq_true, List.all_append, Bool.and_eq_true] at hother
    exact absurd hother.2.2 (by decide)

variable {text : List Char}

theorem Spelled.not_lineBroken (h : Spelled text) : ¬ LineBroken text := by
  rintro ⟨a, name, b, hname, hat⟩
  refine not_exact_broken (h _ _ _ hat fun hopen => ?_)
  exact dollar_not_mem_paramsPath hname (dollar_mem_of_open hopen)

theorem validateText_ok {text : String} (h : validateText text = .ok ())
    (hat : TokenAt text.toList a inner b) : isAllowed inner = true := by
  unfold validateText at h
  split at h
  · cases h
  · rename_i hfind
    have hall : ∀ g ∈ findAll id substitutionPattern text.toList, isAllowed g = true := by
      intro g hg
      have hnot := List.find?_eq_none.mp hfind g hg
      simpa using hnot
    obtain ⟨g, hg, rfl | hopen⟩ := exists_match hat
    · exact hall g hg
    · exact absurd hopen (isAllowed_no_open (hall g hg))

/-- Of the texts the validator passes, those with a line break in a token are not spelled as a
run wants them. -/
theorem spelled_of_validated {text : String} (h : validateText text = .ok ()) :
    Spelled text.toList ↔ ¬ LineBroken text.toList := by
  refine ⟨Spelled.not_lineBroken, ?_⟩
  intro hlines a inner b hat _
  rcases isAllowed_cases (validateText_ok h hat) with hexact | ⟨name, hname, rfl⟩
  · exact hexact
  · exact absurd ⟨a, name, b, hname, hat⟩ hlines

variable {opId : String}

theorem validateOpIdStatic_ok (h : validateOpIdStatic opId = .ok ()) : ¬ HasToken opId.toList := by
  rintro ⟨a, inner, b, hat⟩
  obtain ⟨g, hg, -⟩ := exists_match hat
  unfold validateOpIdStatic at h
  split at h
  · cases h
  · rename_i hnone
    rw [hnone] at hg
    cases hg

theorem spelled_of_bare (h : ¬ HasToken text) : Spelled text :=
  fun a inner b hat _ => absurd ⟨a, inner, b, hat⟩ h

theorem isStepId_bare {id : String} (h : isStepId id = true) : ¬ HasToken id.toList := by
  rintro ⟨a, inner, b, hat⟩
  have hdollar : '$' ∈ id.toList := by
    rw [hat.split]
    simp [tokenOpen]
  unfold isStepId at h
  generalize id.toList = text at h hdollar
  cases text with
  | nil => cases h
  | cons c rest =>
    simp only [Bool.and_eq_true, List.all_eq_true] at h
    rcases List.mem_cons.mp hdollar with rfl | hrest
    · exact absurd h.1.1 (by decide)
    · exact absurd (h.2 '$' hrest) (by decide)

mutual
theorem validateSubstitutions_ok : ∀ v : Json, validateSubstitutions v = .ok () →
    ∀ text ∈ valueTexts v, validateText text = .ok ()
  | .str _, h, _, ht => by
    rw [List.mem_singleton.mp ht]
    exact h
  | .obj fields, h, text, ht => validateFields_ok fields h text ht
  | .arr items, h, text, ht => validateItems_ok items h text ht
  | .null, _, _, ht => nomatch ht
  | .bool _, _, _, ht => nomatch ht
  | .int _, _, _, ht => nomatch ht
  | .float _, _, _, ht => nomatch ht

theorem validateItems_ok : ∀ items : List Json, validateItems items = .ok () →
    ∀ text ∈ itemTexts items, validateText text = .ok ()
  | [], _, _, ht => nomatch ht
  | item :: items, h, text, ht => by
    obtain ⟨_, hitem, h⟩ := bind_ok h
    rcases List.mem_append.mp ht with ht | ht
    · exact validateSubstitutions_ok item hitem text ht
    · exact validateItems_ok items h text ht

theorem validateFields_ok : ∀ fields : List (String × Json), validateFields fields = .ok () →
    ∀ text ∈ fieldTexts fields, validateText text = .ok ()
  | [], _, _, ht => nomatch ht
  | (key, value) :: fields, h, text, ht => by
    obtain ⟨_, -, h⟩ := bind_ok h
    obtain ⟨_, hvalue, h⟩ := bind_ok h
    rcases List.mem_append.mp ht with ht | ht
    · exact validateSubstitutions_ok value hvalue text ht
    · exact validateFields_ok fields h text ht
end

/-- The texts of a gate that the validator has seen: all but a prompt. -/
structure Verify.Seen (verify : Verify) : Prop where
  texts : ∀ opId params expect, verify = .operationCall opId params expect →
    ∀ text ∈ verify.filled, validateText text = .ok ()
  ops : ∀ opId ∈ verify.opIds, validateOpIdStatic opId = .ok ()

/-- What the publish gate checked of an action. -/
structure StepAction.Seen (action : StepAction) : Prop where
  texts : ∀ text ∈ action.filled, validateText text = .ok ()
  ops : ∀ opId ∈ action.opIds, validateOpIdStatic opId = .ok ()

/-- What the publish gate checked of a step. -/
structure Step.Seen (step : Step) : Prop where
  id : isStepId step.id = true
  body : validateText step.body = .ok ()
  action : step.action.Seen
  verify : step.verify.Seen

section
variable {params : Dict} (hop : validateOpIdStatic opId = .ok ())
    (hparams : validateFields params = .ok ())
include hop hparams

theorem Verify.seen_of_call {expect : Dict} (hexpect : validateFields expect = .ok ()) :
    (Verify.operationCall opId params expect).Seen where
  texts := by
    intro _ _ _ _ text ht
    rcases List.mem_append.mp ht with ht | ht
    · exact validateFields_ok params hparams text ht
    · exact validateFields_ok expect hexpect text ht
  ops := by
    intro o ho
    rw [List.mem_singleton.mp ho]
    exact hop

theorem StepAction.seen_of_call :
    (StepAction.operationCall opId params).Seen where
  texts := validateFields_ok params hparams
  ops := by
    intro o ho
    rw [List.mem_singleton.mp ho]
    exact hop

end

theorem Step.validate_ok {step : Step} (hid : isStepId step.id = true)
    (h : step.validate = .ok ()) : step.Seen := by
  obtain ⟨id, title, body, action, verify⟩ := step
  obtain ⟨_, hbody, h⟩ := bind_ok h
  cases action with
  | operationCall opId params =>
    obtain ⟨_, hop, h⟩ := bind_ok h
    obtain ⟨_, hparams, h⟩ := bind_ok h
    refine ⟨hid, hbody, StepAction.seen_of_call hop hparams, ?_⟩
    cases verify with
    | operationCall vOpId vParams expect =>
      obtain ⟨_, hvop, h⟩ := bind_ok h
      obtain ⟨_, hvparams, hexpect⟩ := bind_ok h
      exact Verify.seen_of_call hvop hvparams hexpect
    | confirm prompt => exact ⟨nofun, nofun⟩
  | manual =>
    refine ⟨hid, hbody, ⟨nofun, nofun⟩, ?_⟩
    cases verify with
    | operationCall vOpId vParams expect =>
      obtain ⟨_, hvop, h⟩ := bind_ok h
      obtain ⟨_, hvparams, hexpect⟩ := bind_ok h
      exact Verify.seen_of_call hvop hvparams hexpect
    | confirm prompt => exact ⟨nofun, nofun⟩

theorem validateSteps_ok {seen : List String} {steps : List Step}
    (h : validateSteps seen steps = .ok ()) : ∀ step ∈ steps, step.validate = .ok () := by
  induction steps generalizing seen with
  | nil => exact nofun
  | cons step steps ih =>
    unfold validateSteps at h
    split at h
    · cases h
    · obtain ⟨_, hstep, h⟩ := bind_ok h
      intro s hs
      rcases List.mem_cons.mp hs with rfl | hs
      · exact hstep
      · exact ih h s hs

theorem AcceptedTemplate.seen (t : AcceptedTemplate) {step : Step} (h : step ∈ t.body.steps) :
    step.Seen := by
  have haccepted := t.accepted
  unfold RunbookTemplateBody.validate at haccepted
  split at haccepted
  · rename_i hformed
    have hstep := List.all_eq_true.mp hformed step h
    unfold Step.wellFormed at hstep
    rw [Bool.and_eq_true] at hstep
    exact Step.validate_ok hstep.1 (validateSteps_ok haccepted step h)
  · cases haccepted

/-! ## Parameters -/

section Names
variable (py : Python) (target : String) (params : Dict)

/-- The parameters that a text names when the target stands in it. -/
def namesWithTarget (text : String) : List String :=
  collectParamRefs (String.ofList (withTarget id id target text.toList))

theorem fillParams_iff {α : Type} (value : Char → α) (ps : List (Piece α (List Char))) :
    (∃ out, fillParams value py.str params ps = .ok out) ↔
      ∀ name, .hit name ∈ ps → (dictGet params (String.ofList name)).isSome = true := by
  induction ps with
  | nil => exact ⟨fun _ _ hmem => absurd hmem List.not_mem_nil, fun _ => ⟨[], rfl⟩⟩
  | cons p ps ih =>
    cases p with
    | lit a =>
      constructor
      · rintro ⟨out, hout⟩ name hmem
        obtain ⟨filled, hfilled, -⟩ := bind_ok hout
        rcases List.mem_cons.mp hmem with heq | hmem
        · cases heq
        · exact ih.mp ⟨filled, hfilled⟩ name hmem
      · intro h
        obtain ⟨filled, hfilled⟩ := ih.mpr fun name hmem => h name (List.mem_cons_of_mem _ hmem)
        exact ⟨a :: filled, by simp only [fillParams, hfilled]; rfl⟩
    | hit found =>
      constructor
      · rintro ⟨out, hout⟩ name hmem
        obtain ⟨chars, hchars, hout⟩ := bind_ok hout
        obtain ⟨filled, hfilled, -⟩ := bind_ok hout
        rcases List.mem_cons.mp hmem with heq | hmem
        · cases heq
          unfold lookupParam at hchars
          split at hchars
          · rename_i hget
            rw [hget]
            rfl
          · cases hchars
        · exact ih.mp ⟨filled, hfilled⟩ name hmem
      · intro h
        obtain ⟨filled, hfilled⟩ := ih.mpr fun name hmem => h name (List.mem_cons_of_mem _ hmem)
        obtain ⟨v, hv⟩ := Option.isSome_iff_exists.mp (h found List.mem_cons_self)
        refine ⟨(py.str v).toList.map value ++ filled, ?_⟩
        simp only [fillParams, lookupParam, hv, hfilled]
        rfl

/-- A text can be filled in when all it names with the target in it is given. -/
theorem resolves_iff (text : String) : Resolves py target params text ↔
    ∀ name ∈ namesWithTarget target text, (dictGet params name).isSome = true := by
  have hfill := fillParams_iff py params id
    (pieces id runParamsPattern 0 (withTarget id id target text.toList))
  have hnames : ∀ name, name ∈ namesWithTarget target text ↔ ∃ chars, name = String.ofList chars ∧
      Piece.hit chars ∈ pieces id runParamsPattern 0 (withTarget id id target text.toList) := by
    intro name
    unfold namesWithTarget collectParamRefs findAll
    simp only [String.toList_ofList, List.mem_map, List.mem_filterMap]
    constructor
    · rintro ⟨chars, ⟨p, hp, hchars⟩, rfl⟩
      cases p with
      | lit a => cases hchars
      | hit g =>
        cases hchars
        exact ⟨chars, rfl, hp⟩
    · rintro ⟨chars, rfl, hp⟩
      exact ⟨chars, ⟨_, hp, rfl⟩, rfl⟩
  constructor
  · rintro ⟨out, hout⟩ name hname
    obtain ⟨chars, rfl, hp⟩ := (hnames name).mp hname
    obtain ⟨filled, hfilled, -⟩ := bind_ok hout
    exact hfill.mp ⟨filled, hfilled⟩ chars hp
  · intro h
    obtain ⟨out, hout⟩ := hfill.mpr fun chars hp => h _ ((hnames _).mpr ⟨chars, rfl, hp⟩)
    refine ⟨String.ofList out, ?_⟩
    unfold Resolved resolveString resolveText
    rw [hout]
    rfl

mutual
theorem mem_walkCollect {name text : String} (hname : name ∈ collectParamRefs text) :
    ∀ v : Json, text ∈ valueTexts v → name ∈ walkCollect v
  | .str _, ht => by
    rw [List.mem_singleton.mp ht] at hname
    exact hname
  | .obj fields, ht => mem_walkFields hname fields ht
  | .arr items, ht => mem_walkItems hname items ht
  | .null, ht => nomatch ht
  | .bool _, ht => nomatch ht
  | .int _, ht => nomatch ht
  | .float _, ht => nomatch ht

theorem mem_walkItems {name text : String} (hname : name ∈ collectParamRefs text) :
    ∀ items : List Json, text ∈ itemTexts items → name ∈ walkItems items
  | [], ht => nomatch ht
  | item :: items, ht => by
    rcases List.mem_append.mp ht with ht | ht
    · exact List.mem_append_left _ (mem_walkCollect hname item ht)
    · exact List.mem_append_right _ (mem_walkItems hname items ht)

theorem mem_walkFields {name text : String} (hname : name ∈ collectParamRefs text) :
    ∀ fields : List (String × Json), text ∈ fieldTexts fields → name ∈ walkFields fields
  | [], ht => nomatch ht
  | (_, value) :: fields, ht => by
    rcases List.mem_append.mp ht with ht | ht
    · exact List.mem_append_left _ (mem_walkCollect hname value ht)
    · exact List.mem_append_right _ (mem_walkFields hname fields ht)
end

/-- The start of a run looks at every text that is filled in. -/
theorem mem_paramRefs {step : Step} {text name : String} (ht : text ∈ step.filled)
    (hname : name ∈ collectParamRefs text) : name ∈ step.paramRefs := by
  obtain ⟨id, title, body, action, verify⟩ := step
  unfold Step.paramRefs
  rw [List.mem_append, List.mem_append]
  rcases List.mem_cons.mp ht with rfl | ht
  · exact .inl (.inl hname)
  rcases List.mem_append.mp ht with ht | ht
  · refine .inl (.inr ?_)
    cases verify with
    | confirm prompt =>
      obtain rfl := List.mem_singleton.mp ht
      exact hname
    | operationCall opId callParams expect =>
      rcases List.mem_append.mp ht with ht | ht
      · exact List.mem_append_left _ (List.mem_append_right _ (mem_walkFields hname callParams ht))
      · exact List.mem_append_right _ (mem_walkFields hname expect ht)
  · refine .inr ?_
    cases action with
    | operationCall opId callParams =>
      exact List.mem_append_right _ (mem_walkFields hname callParams ht)
    | manual => cases ht

theorem validateParams_ok {body : RunbookTemplateBody}
    (h : validateParamsAgainstTemplate body params = .ok ()) {step : Step} (hs : step ∈ body.steps)
    {text name : String} (ht : text ∈ step.filled) (hname : name ∈ collectParamRefs text) :
    (dictGet params name).isSome = true := by
  unfold validateParamsAgainstTemplate at h
  dsimp only at h
  split at h
  · rename_i hempty
    rw [List.isEmpty_iff, List.filter_eq_nil_iff] at hempty
    have hgiven := hempty name (List.mem_flatMap.mpr ⟨step, hs, mem_paramRefs ht hname⟩)
    rwa [Option.isNone_iff_eq_none, ← Option.not_isSome_iff_eq_none, not_not] at hgiven
  · cases h

end Names

/-! ## Steps that can be shown -/

section Run
variable (py : Python) (target : String) (params : Dict)

/-- **What comes of a text, with no token of it left.** -/
def FilledIn (text out : String) : Prop :=
  ∃ marks, resolveMarked py.str target params text.toList = .ok marks ∧
    out = String.ofList (marks.map Prod.fst) ∧ ¬ LeftIn marks text.toList

/-- **A step runs**: it can be shown, its verify call can be built, and no token of the template
is left in either. -/
structure StepRuns (step : Step) : Prop where
  shown : ∃ shown, buildStepBody py target params step = .ok shown ∧
    (∀ text ∈ shown.verbatim, ¬ HasToken text.toList) ∧
    List.Forall₂ (FilledIn py target params) step.filled shown.filled
  called : ∀ opId callParams expect, step.verify = .operationCall opId callParams expect →
    ∃ op args, buildVerifyCall py target params opId callParams = .ok (op, args) ∧
      FilledIn py target params opId op ∧
      List.Forall₂ (FilledIn py target params) (fieldTexts callParams) (fieldTexts args) ∧
      ∀ key ∈ fieldKeys args, ¬ HasToken key.toList

/-- **What a step needs besides the checks.** -/
structure StepSound (step : Step) : Prop where
  /-- No token has a line break in front of its brace. -/
  lines : ∀ text ∈ step.filled, ¬ LineBroken text.toList
  /-- The prompt's tokens are those of a run. -/
  prompt : ∀ prompt, step.verify = .confirm prompt → Spelled prompt.toList
  /-- A parameter that only the target makes a text name is given. -/
  brought : ∀ text ∈ step.filled, ∀ name ∈ namesWithTarget target text,
    name ∉ collectParamRefs text → (dictGet params name).isSome = true
  title : ¬ HasToken step.title.toList
  keys : ∀ key ∈ step.keys, ¬ HasToken key.toList

theorem filledIn_iff (text out : String) : FilledIn py target params text out ↔
    Resolved py target params text out ∧ Spelled text.toList := by
  have herase := resolveText_erase py.str target params text.toList
  unfold FilledIn Resolved resolveString
  constructor
  · rintro ⟨marks, hmarks, rfl, hleft⟩
    rw [hmarks] at herase
    rw [← herase]
    rw [leftIn_iff hmarks, not_not] at hleft
    exact ⟨rfl, hleft⟩
  · rintro ⟨hout, hspelled⟩
    cases hmarks : resolveMarked py.str target params text.toList with
    | error e =>
      rw [hmarks] at herase
      rw [← herase] at hout
      cases hout
    | ok marks =>
      rw [hmarks] at herase
      rw [← herase] at hout
      cases hout
      refine ⟨marks, rfl, rfl, ?_⟩
      rw [leftIn_iff hmarks, not_not]
      exact hspelled

theorem forall₂_filledIn {texts outs : List String} :
    List.Forall₂ (FilledIn py target params) texts outs ↔
      List.Forall₂ (Resolved py target params) texts outs ∧ ∀ text ∈ texts, Spelled text.toList := by
  constructor
  · intro h
    induction h with
    | nil => exact ⟨.nil, nofun⟩
    | cons hfirst _ ih =>
      obtain ⟨hresolved, hspelled⟩ := (filledIn_iff py target params _ _).mp hfirst
      refine ⟨.cons hresolved ih.1, ?_⟩
      intro text ht
      rcases List.mem_cons.mp ht with rfl | ht
      · exact hspelled
      · exact ih.2 text ht
  · rintro ⟨h, hspelled⟩
    induction h with
    | nil => exact .nil
    | cons hfirst _ ih =>
      refine .cons ((filledIn_iff py target params _ _).mpr ⟨hfirst, hspelled _ List.mem_cons_self⟩)
        (ih fun text ht => hspelled text (List.mem_cons_of_mem _ ht))

theorem exists_of_forall₂ {R : String → String → Prop} {xs ys : List String}
    (h : List.Forall₂ R xs ys) {x : String} (hx : x ∈ xs) : ∃ y, R x y := by
  induction h with
  | nil => cases hx
  | cons hfirst _ ih =>
    rcases List.mem_cons.mp hx with rfl | hx
    · exact ⟨_, hfirst⟩
    · exact ih hx

/-- A text without tokens stays as it is. -/
theorem resolved_of_bare {text : String} (h : ¬ HasToken text.toList) :
    Resolved py target params text text := by
  have hkeep : ∀ {γ : Type} (pattern : Pattern γ),
      (∀ t n g, pattern t = some (n, g) → ∃ a inner b, TokenAt t a inner b) →
      pieces id pattern 0 text.toList = text.toList.map .lit := by
    intro γ pattern htoken
    have hlits := pieces_lits id pattern (x := text.toList) (s := []) fun u v huv _ => by
      cases hmatch : pattern ((v ++ []).map id) with
      | none => rfl
      | some found =>
        obtain ⟨a, inner, b, hat⟩ := htoken _ _ _ hmatch
        refine absurd ⟨u ++ a, inner, b, ?_, hat.closed⟩ h
        rw [List.map_id, List.append_nil] at hat
        rw [huv, hat.split, ← List.append_assoc u]
    simpa [pieces] using hlits
  have htarget : withTarget id id target text.toList = text.toList := by
    unfold withTarget replaceAll
    rw [hkeep runTargetPattern, expand_lits]
    intro t n g hmatch
    obtain ⟨-, rest, rfl⟩ := runTargetPattern_some hmatch
    exact ⟨[], targetPath, rest, rfl, closed_targetPath⟩
  unfold Resolved resolveString resolveText
  rw [htarget, hkeep runParamsPattern, fillParams_lits]
  · exact congrArg Except.ok String.ofList_toList
  · intro t n g hmatch
    obtain ⟨hname, -, rest, rfl⟩ := runParamsPattern_some hmatch
    exact ⟨[], paramsPath ++ g, rest, rfl, closed_paramsPath hname⟩

theorem Step.Seen.spelled {step : Step} (hseen : step.Seen) (hsound : StepSound target params step) :
    ∀ text ∈ step.filled, Spelled text.toList := by
  intro text ht
  have hlines := hsound.lines text ht
  rcases List.mem_cons.mp ht with rfl | ht
  · exact (spelled_of_validated hseen.body).mpr hlines
  rcases List.mem_append.mp ht with ht | ht
  · cases hverify : step.verify with
    | confirm prompt =>
      rw [hverify] at ht
      obtain rfl := List.mem_singleton.mp ht
      exact hsound.prompt _ hverify
    | operationCall opId callParams expect =>
      exact (spelled_of_validated (hseen.verify.texts _ _ _ hverify text ht)).mpr hlines
  · exact (spelled_of_validated (hseen.action.texts text ht)).mpr hlines

/-- **A step of an accepted template runs exactly when it is sound**, where the parameters it
names are given. -/
theorem stepRuns_iff {step : Step} (hseen : step.Seen)
    (hgiven : ∀ text ∈ step.filled, ∀ name ∈ collectParamRefs text,
      (dictGet params name).isSome = true) :
    StepRuns py target params step ↔ StepSound target params step := by
  constructor
  · rintro ⟨⟨shown, hshown, hverbatim, hfilled⟩, -⟩
    obtain ⟨hsame, -⟩ := buildStepBody_ok py target params hshown
    obtain ⟨hresolved, hspelled⟩ := (forall₂_filledIn py target params).mp hfilled
    rw [hsame] at hverbatim
    refine ⟨?_, ?_, ?_, ?_, ?_⟩
    · exact fun text ht => (hspelled text ht).not_lineBroken
    · intro prompt hverify
      refine hspelled prompt (List.mem_cons_of_mem _ (List.mem_append_left _ ?_))
      rw [hverify]
      exact List.mem_cons_self
    · intro text ht name hname _
      exact (resolves_iff py target params text).mp (exists_of_forall₂ hresolved ht) name hname
    · exact hverbatim _ (List.mem_cons_of_mem _ List.mem_cons_self)
    · intro key hkey
      exact hverbatim key (List.mem_cons_of_mem _ (List.mem_cons_of_mem _
        (List.mem_append_right _ hkey)))
  · intro hsound
    have hspelled := hseen.spelled target params hsound
    -- every token of a filled text has a value: a parameter that is given, or one of the run's own
    have hresolves : ∀ text ∈ step.filled, Resolves py target params text := by
      intro text ht
      rw [resolves_iff]
      intro name hname
      by_cases hnamed : name ∈ collectParamRefs text
      · exact hgiven text ht name hnamed
      · exact hsound.brought text ht name hname hnamed
    refine ⟨?_, ?_⟩
    · obtain ⟨shown, hshown⟩ := buildStepBody_of_texts py target params hresolves
      obtain ⟨hsame, hfilled⟩ := buildStepBody_ok py target params hshown
      refine ⟨shown, hshown, ?_, (forall₂_filledIn py target params).mpr ⟨hfilled, hspelled⟩⟩
      rw [hsame]
      intro text ht
      -- the texts shown as they stand: the id, the title, the op ids and the keys
      simp only [List.mem_cons, List.mem_append] at ht
      rcases ht with rfl | rfl | (hop | hop) | hkey
      · exact isStepId_bare hseen.id
      · exact hsound.title
      · exact validateOpIdStatic_ok (hseen.verify.ops text hop)
      · exact validateOpIdStatic_ok (hseen.action.ops text hop)
      · exact hsound.keys text hkey
    · intro opId callParams expect hverify
      -- the call of the check is built from texts that are filled as well
      have htexts : ∀ text ∈ fieldTexts callParams, text ∈ step.filled := by
        intro text ht
        refine List.mem_cons_of_mem _ (List.mem_append_left _ ?_)
        rw [hverify]
        exact List.mem_append_left _ ht
      have hbare : ¬ HasToken opId.toList := by
        refine validateOpIdStatic_ok (hseen.verify.ops opId ?_)
        rw [hverify]
        exact List.mem_cons_self
      obtain ⟨args, hargs⟩ := resolveFields_of_texts py target params callParams fun text ht =>
        hresolves text (htexts text ht)
      obtain ⟨hkeys, hfilled⟩ := resolveFields_ok py target params callParams args hargs
      have hop := resolved_of_bare py target params hbare
      refine ⟨opId, args, ?_, ?_, ?_, ?_⟩
      · unfold buildVerifyCall
        rw [keyed_of_ok hop, keyed_of_ok hargs]
        rfl
      · exact (filledIn_iff py target params _ _).mpr ⟨hop, spelled_of_bare hbare⟩
      · exact (forall₂_filledIn py target params).mpr
          ⟨hfilled, fun text ht => hspelled text (htexts text ht)⟩
      · rw [hkeys]
        intro key hkey
        refine hsound.keys key (List.mem_append_left _ ?_)
        rw [hverify]
        exact List.mem_append_left _ hkey

theorem startRun_iff {template : AcceptedTemplate}
    (hparams : validateParamsAgainstTemplate template.body params = .ok ()) :
    (∃ shown, startRun py template target params = .ok shown) ↔
      ∃ first rest, template.body.steps = first :: rest ∧
        ∃ shown, buildStepBody py target params first = .ok shown := by
  unfold startRun
  rw [hparams]
  cases hsteps : template.body.steps with
  | nil =>
    constructor
    · rintro ⟨shown, h⟩
      cases h
    · rintro ⟨first, rest, h, -⟩
      cases h
  | cons first rest =>
    -- the first step is the first one of its id
    have hfind : findStep template.body first.id = .ok first := by
      unfold findStep
      rw [hsteps, List.find?_cons_of_pos
        (p := fun step : Step => decide (step.id = first.id)) (decide_eq_true rfl)]
    have hshow : currentStepBody py target params template.body first.id =
        buildStepBody py target params first := by
      unfold currentStepBody
      rw [hfind]
      rfl
    change (∃ shown, (currentStepBody py target params template.body first.id).mapError _ = _) ↔ _
    rw [hshow]
    constructor
    · rintro ⟨shown, h⟩
      refine ⟨first, rest, rfl, shown, ?_⟩
      cases hbuild : buildStepBody py target params first with
      | error e =>
        rw [hbuild] at h
        cases h
      | ok body =>
        rw [hbuild] at h
        cases h
        rfl
    · rintro ⟨first', rest', heq, shown, h⟩
      cases heq
      exact ⟨shown, by rw [h]; rfl⟩

end Run

/-- **What is accepted runs exactly when** it has a step, and each of its steps is sound for the
target and the parameters of the run. -/
theorem runs_iff_sound (py : Python) (template : AcceptedTemplate) (target : String) (params : Dict)
    (hparams : validateParamsAgainstTemplate template.body params = .ok ()) :
    ((∃ shown, startRun py template target params = .ok shown) ∧
        ∀ step ∈ template.body.steps, StepRuns py target params step) ↔
      template.body.steps ≠ [] ∧ ∀ step ∈ template.body.steps, StepSound target params step := by
  have hsteps : (∀ step ∈ template.body.steps, StepRuns py target params step) ↔
      ∀ step ∈ template.body.steps, StepSound target params step := by
    refine forall₂_congr fun step hs => stepRuns_iff py target params (template.seen hs) ?_
    intro text ht name hname
    exact validateParams_ok params hparams hs ht hname
  rw [startRun_iff py target params hparams, hsteps]
  constructor
  · rintro ⟨⟨first, rest, heq, -⟩, hsound⟩
    refine ⟨?_, hsound⟩
    rw [heq]
    exact List.cons_ne_nil first rest
  · rintro ⟨hne, hsound⟩
    refine ⟨?_, hsound⟩
    obtain ⟨first, rest, heq⟩ := List.exists_cons_of_ne_nil hne
    have hfirst : first ∈ template.body.steps := by
      rw [heq]
      exact List.mem_cons_self
    obtain ⟨shown, hshown, -⟩ := (hsteps.mpr hsound first hfirst).shown
    exact ⟨first, rest, heq, shown, hshown⟩

/-- `str` of a text is the text. -/
def textPython : Python :=
  ⟨fun | .str text => text | _ => "", fun _ _ => false⟩

/-- One step that names the target and a parameter. -/
def loginStep : Step :=
  ⟨"login", "Log in", "log in to $\x7brun.target\x7d as $\x7brun.params.user\x7d", .manual,
    .confirm "logged in?"⟩

def loginTemplate : AcceptedTemplate :=
  ⟨⟨"t", "d", none, [loginStep]⟩, by decide +kernel⟩

def loginParams : Dict := [("user", .str "root")]

theorem not_lineBroken_of_flat (h : '\n' ∉ text) : ¬ LineBroken text := by
  rintro ⟨a, name, b, -, hat⟩
  refine h ?_
  rw [hat.split]
  simp

theorem bare_of_no_dollar (h : '$' ∉ text) : ¬ HasToken text := by
  rintro ⟨a, inner, b, hat⟩
  refine h ?_
  rw [hat.split]
  simp [tokenOpen]

theorem loginStep_sound : StepSound "db-1" loginParams loginStep where
  lines := by
    intro text ht
    apply not_lineBroken_of_flat
    revert text
    decide +kernel
  prompt := by
    intro prompt hprompt
    cases hprompt
    exact spelled_of_bare (bare_of_no_dollar (by decide))
  brought := by decide +kernel
  title := bare_of_no_dollar (by decide)
  keys := nofun

theorem loginParams_given : validateParamsAgainstTemplate loginTemplate.body loginParams = .ok () := by
  unfold validateParamsAgainstTemplate
  dsimp only
  rw [if_pos (by decide +kernel)]

theorem runs_iff_sound_login :
    (∃ shown, startRun textPython loginTemplate "db-1" loginParams = .ok shown) ∧
      ∀ step ∈ loginTemplate.body.steps, StepRuns textPython "db-1" loginParams step :=
  (runs_iff_sound textPython loginTemplate "db-1" loginParams loginParams_given).mpr
    ⟨List.cons_ne_nil _ _, fun step hs => by
      rw [List.mem_singleton.mp hs]
      exact loginStep_sound⟩

/-- A template without steps is accepted, and no run of it starts. -/
theorem empty_template_index_error : ∃ template : AcceptedTemplate, template.body.steps = [] ∧
    validateParamsAgainstTemplate template.body [] = .ok () ∧
    startRun textPython template "db-1" [] = .error .indexError :=
  ⟨⟨⟨"t", "d", none, []⟩, rfl⟩, rfl, rfl, rfl⟩

end Meho.Runbook
