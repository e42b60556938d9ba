import Meho.Json
import Meho.Lib.Scan

/- Runbook templates: their shape, what is accepted, and how a template's tokens are
filled in (runbooks/schemas.py, runbooks/substitution.py).

A template is a list of steps, each with a gate that is answered before the next
step. Its texts may carry tokens. When it is accepted every token is looked at:
`${run.target}` and `${run.params.X}` are allowed. In a run the same texts are
read again with two narrower patterns, and what these match is replaced.

Correspondence: `STEP_ID_PATTERN` ↔ `isStepId`, `_PARAM_NAME_PATTERN` ↔
`isParamPath`, the validator of `RunbookTemplateBody` ↔ `validate`; what is
not listed keeps its name. A body's white space at its ends is cut off before
there is a template, and is not modelled. `str` is Python's, which the texts
of the values are taken from. -/
namespace Meho.Runbook
open Meho.Lib

inductive Verify where
  | confirm (prompt : String)
  | operationCall (opId : String) (params expect : Dict)

inductive StepAction where
  | operationCall (opId : String) (params : Dict)
  | manual

structure Step where
  id : String
  title : String
  body : String
  action : StepAction
  verify : Verify

structure RunbookTemplateBody where
  title : String
  description : String
  targetKind : Option String
  steps : List Step

/-! ## What is accepted -/

/-- `${`. -/
def tokenOpen : List Char := ['$', '\x7b']

def tokenClose : Char := '\x7d'

/-- `\$\{([^}]*)\}`, with what stands between the braces. -/
def substitutionPattern : Pattern (List Char) := fun s =>
  if tokenOpen.isPrefixOf s then
    let inner := (s.drop 2).takeWhile (· ≠ tokenClose)
    if (s.drop (2 + inner.length)).head? = some tokenClose then some (inner.length + 3, inner)
    else none
  else none

/-- `[a-z_]`. -/
def isNameStart (c : Char) : Bool := ('a' ≤ c && c ≤ 'z') || c = '_'

/-- `[a-z0-9_]`. -/
def isNameChar (c : Char) : Bool := isNameStart c || ('0' ≤ c && c ≤ '9')

/-- `[a-z_][a-z0-9_]*` at the front of a text, and what is behind it. -/
def paramName (s : List Char) : Option (List Char × List Char) :=
  if (s.head?.any isNameStart) then some (s.takeWhile isNameChar, s.dropWhile isNameChar)
  else none

def paramsPath : List Char := "run.params.".toList

/-- `^run\.params\.[a-z_][a-z0-9_]*$`. The end of the pattern also matches in front of a line
break that ends the text. -/
def isParamPath (inner : List Char) : Bool :=
  paramsPath.isPrefixOf inner &&
    match paramName (inner.drop paramsPath.length) with
    | some (_, rest) => rest = [] || rest = ['\n']
    | none => false

def targetPath : List Char := "run.target".toList

def isAllowed (inner : List Char) : Bool := inner = targetPath || isParamPath inner

/-- The first token of a text that is not allowed. -/
def validateText (text : String) : Except String Unit :=
  match (findAll id substitutionPattern text.toList).find? (!isAllowed ·) with
  | some inner => .error ("disallowed substitution pattern: " ++
      String.ofList (tokenOpen ++ inner ++ [tokenClose]))
  | none => .ok ()

mutual
def validateSubstitutions : Json → Except String Unit
  | .str text => validateText text
  | .obj fields => validateFields fields
  | .arr items => validateItems items
  | _ => .ok ()

def validateItems : List Json → Except String Unit
  | [] => .ok ()
  | item :: items => do
    validateSubstitutions item
    validateItems items

/-- Keys are looked at as well as values. -/
def validateFields : List (String × Json) → Except String Unit
  | [] => .ok ()
  | (key, value) :: fields => do
    validateText key
    validateSubstitutions value
    validateFields fields
end

def validateOpIdStatic (opId : String) : Except String Unit :=
  match findAll id substitutionPattern opId.toList with
  | inner :: _ => .error ("disallowed substitution in op_id: " ++
      String.ofList (tokenOpen ++ inner ++ [tokenClose]))
  | [] => .ok ()

/-- `^[a-z][a-z0-9\-]{0,63}$`. -/
def isStepId (id : String) : Bool :=
  match id.toList with
  | [] => false
  | c :: rest => ('a' ≤ c && c ≤ 'z') && rest.length ≤ 63 &&
    rest.all fun d => ('a' ≤ d && d ≤ 'z') || ('0' ≤ d && d ≤ '9') || d = '-'

/-- The texts of one step that the validator looks at, in its order. -/
def Step.validate (step : Step) : Except String Unit := do
  validateText step.body
  match step.action with
  | .operationCall opId params =>
    validateOpIdStatic opId
    validateFields params
  | .manual => pure ()
  match step.verify with
  | .operationCall opId params expect =>
    validateOpIdStatic opId
    validateFields params
    validateFields expect
  | .confirm _ => pure ()

/-- The steps behind those whose ids are `seen`. -/
def validateSteps (seen : List String) : List Step → Except String Unit
  | [] => .ok ()
  | step :: steps =>
    if step.id ∈ seen then .error ("duplicate step id: '" ++ step.id ++ "'")
    else do
      step.validate
      validateSteps (step.id :: seen) steps

/-- What the fields of a step ask for. -/
def Step.wellFormed (step : Step) : Bool := isStepId step.id && step.body ≠ ""

def RunbookTemplateBody.validate (body : RunbookTemplateBody) : Except String Unit :=
  if body.steps.all Step.wellFormed then validateSteps [] body.steps
  else .error "a step's id or body is malformed"

/-- A template body that was accepted. -/
structure AcceptedTemplate where
  body : RunbookTemplateBody
  accepted : body.validate = .ok ()

theorem validateSteps_nodup {seen : List String} {steps : List Step}
    (h : validateSteps seen steps = .ok ()) :
    (steps.map (·.id)).Nodup ∧ ∀ step ∈ steps, step.id ∉ seen := by
  induction steps generalizing seen with
  | nil => exact ⟨List.nodup_nil, nofun⟩
  | cons step steps ih =>
    unfold validateSteps at h
    split at h
    · cases h
    · rename_i hnew
      cases hstep : step.validate with
      | error e =>
        rw [hstep] at h
        cases h
      | ok =>
        rw [hstep] at h
        obtain ⟨hnodup, hunseen⟩ := ih h
        refine ⟨?_, ?_⟩
        · rw [List.map_cons, List.nodup_cons]
          refine ⟨?_, hnodup⟩
          intro hmem
          obtain ⟨later, hlater, hid⟩ := List.mem_map.mp hmem
          exact hunseen later hlater (hid ▸ List.mem_cons_self)
        · intro s hs
          rcases List.mem_cons.mp hs with rfl | hs
          · exact hnew
          · exact fun hmem => hunseen s hs (List.mem_cons_of_mem _ hmem)

/-- Step ids are unique. -/
theorem AcceptedTemplate.ids_nodup (t : AcceptedTemplate) : (t.body.steps.map (·.id)).Nodup := by
  have h := t.accepted
  unfold RunbookTemplateBody.validate at h
  split at h
  · exact (validateSteps_nodup h).1
  · cases h

/-! ## Filling in -/

def runTargetToken : List Char := tokenOpen ++ targetPath ++ [tokenClose]

/-- `\$\{run\.target\}`. -/
def runTargetPattern : Pattern Unit := fun s =>
  if runTargetToken.isPrefixOf s then some (runTargetToken.length, ()) else none

/-- `\$\{run\.params\.([a-z_][a-z0-9_]*)\}`, with the name. -/
def runParamsPattern : Pattern (List Char) := fun s =>
  if (tokenOpen ++ paramsPath).isPrefixOf s then
    match paramName (s.drop (tokenOpen ++ paramsPath).length) with
    | some (name, rest) =>
      if rest.head? = some tokenClose then
        some ((tokenOpen ++ paramsPath).length + name.length + 1, name)
      else none
    | none => none
  else none

section Resolve
variable {α : Type} (char : α → Char) (value : Char → α)
variable (str : Json → String) (target : String) (params : Dict)

/-- `str(params[name])`, or the `KeyError`. -/
def lookupParam (name : List Char) : Except String (List Char) :=
  match dictGet params (String.ofList name) with
  | some found => .ok (str found).toList
  | none => .error (String.ofList name)

/-- The text with the target put in. -/
def withTarget (text : List α) : List α :=
  replaceAll char runTargetPattern (fun _ => target.toList.map value) text

/-- The pieces of a text with the parameters put in, up to the first one that is missing. -/
def fillParams : List (Piece α (List Char)) → Except String (List α)
  | [] => .ok []
  | .lit a :: rest => do
    let filled ← fillParams rest
    pure (a :: filled)
  | .hit name :: rest => do
    let found ← lookupParam str params name
    let filled ← fillParams rest
    pure (found.map value ++ filled)

/-- The target first, then the parameters in what has come of it. The text may carry marks:
`char` shows its characters, `value` makes a character of a value one of the text. -/
def resolveText (text : List α) : Except String (List α) :=
  fillParams value str params
    (pieces char runParamsPattern 0 (withTarget char value target text))

def resolveString (text : String) : Except String String := do
  let resolved ← resolveText id id str target params text.toList
  pure (String.ofList resolved)

mutual
def resolveSubstitutions : Json → Except String Json
  | .str text => do
    let resolved ← resolveString str target params text
    pure (.str resolved)
  | .obj fields => do
    let resolved ← resolveFields fields
    pure (.obj resolved)
  | .arr items => do
    let resolved ← resolveItems items
    pure (.arr resolved)
  | value => .ok value

def resolveItems : List Json → Except String (List Json)
  | [] => .ok []
  | item :: items => do
    let resolved ← resolveSubstitutions item
    let rest ← resolveItems items
    pure (resolved :: rest)

/-- Keys stay as they are. -/
def resolveFields : List (String × Json) → Except String (List (String × Json))
  | [] => .ok []
  | (key, value) :: fields => do
    let resolved ← resolveSubstitutions value
    let rest ← resolveFields fields
    pure ((key, resolved) :: rest)
end

end Resolve
end Meho.Runbook
