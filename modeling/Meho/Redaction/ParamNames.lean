import Meho.Json

/- Secret-named values in JSON params (broadcast/events.py).

The name rule splits a parameter name into lower-case words and calls it
secret-shaped by its words: some words in any place, some only at the end,
some as a pair. The walk replaces every value under a secret-shaped name by
one marker, also the `value` of a name/value pair whose `name` is
secret-shaped. Booleans and nulls pass; numbers pass unless the caller asks
to hide them, as the approval queue does.

What is proved: `scrub_secretFree`, what the walk leaves behind holds no
value under a secret-shaped name; `secretFree_of_not_found`, a walk that
reports nothing found saw a value with nothing to hide.

Correspondence: each function keeps its name. -/
namespace Meho.Redaction

/-! ## The name rule -/

def secretNameTokensAnywhere : List String :=
  ["password", "passwords", "passwd", "pwd", "passphrase", "passphrases", "apikey", "kubeconfig"]

def secretNameTokensFinal : List String :=
  ["secret", "secrets", "token", "credential", "credentials", "psk"]

def secretNameTokenPairs : List (String × String) :=
  [("api", "key"), ("access", "key"), ("private", "key"), ("encryption", "key"),
   ("license", "key"), ("licence", "key"), ("license", "keys"), ("licence", "keys"),
   ("product", "key"), ("secret", "id"), ("secret", "value"), ("secret", "data")]

def secretNameFinalTokenPairs : List (String × String) :=
  [("secret", "key"), ("shared", "key"), ("preshared", "key"), ("connection", "string"),
   ("connection", "strings")]

/-- The replacement value. -/
def redactedParam : String := "[REDACTED:param_name]"

/-- `str.lower()` on one character, as far as the ASCII words above can tell: the Kelvin sign
and the dotted capital I are the only characters outside ASCII whose lower case has an
ASCII letter in it. Every other one stays outside ASCII and equals no letter of a word. -/
def lowerChar (c : Char) : List Char :=
  if c = '\u212A' then ['k'] else if c = '\u0130' then ['i', '\u0307'] else [c.toLower]

def lower (cs : List Char) : List Char := cs.flatMap lowerChar

def isAsciiLowerOrDigit (c : Char) : Bool := ('a' ≤ c && c ≤ 'z') || ('0' ≤ c && c ≤ '9')

def isAsciiUpper (c : Char) : Bool := 'A' ≤ c && c ≤ 'Z'

/-- `_CAMEL_BOUNDARY.sub("_", ...)`: an underscore between a lower-case letter or digit and a
capital. -/
def splitCamel : List Char → List Char
  | a :: b :: rest =>
    if isAsciiLowerOrDigit a && isAsciiUpper b then a :: '_' :: splitCamel (b :: rest)
    else a :: splitCamel (b :: rest)
  | cs => cs

/-- `name.replace("-", "_").replace(".", "_")`. -/
def flatName (name : String) : List Char :=
  name.toList.map fun c => if c = '-' ∨ c = '.' then '_' else c

/-- The non-empty parts between underscores. -/
def nameTokens (normalised : List Char) : List String :=
  ((normalised.splitOn '_').filter (· ≠ [])).map String.ofList

/-- Whether two words that follow each other are one of `pairs`. -/
def hasTokenPair (pairs : List (String × String)) (tokens : List String) : Bool :=
  (tokens.zip tokens.tail).any pairs.contains

def tokensAreSecret (normalised : List Char) : Bool :=
  let tokens := nameTokens normalised
  match tokens.getLast? with
  | none => false
  | some last =>
    tokens.any secretNameTokensAnywhere.contains || secretNameTokensFinal.contains last ||
      (match tokens.reverse with
        | b :: a :: _ => secretNameFinalTokenPairs.contains (a, b)
        | _ => false) ||
      hasTokenPair secretNameTokenPairs tokens

def isSecretParamName (name : String) : Bool :=
  tokensAreSecret (lower (splitCamel (flatName name))) || tokensAreSecret (lower (flatName name))

example : isSecretParamName "clientSecret" = true := by decide
example : isSecretParamName "secret_key_ref" = false := by decide
example : isSecretParamName "licenseKeys" = true := by decide

/-! ## The walk -/

/-- A name/value pair whose `name` is secret-shaped. -/
def isSecretNameValuePair (plainNames : List String) (node : Dict) : Bool :=
  match dictGet node "value", dictGetStr node "name" with
  | some _, some name => !plainNames.contains name && isSecretParamName name
  | _, _ => false

/-- Whether a value under a secret-shaped name is replaced. -/
def isSecretValue (hideNumbers : Bool) : Json → Bool
  | .str _ => true
  | .obj _ => true
  | .arr _ => true
  | .int _ => hideNumbers
  | .float _ => hideNumbers
  | .bool _ => false
  | .null => false

section
variable (hideNumbers : Bool) (plainNames : List String)

/-- The entry `name` holds a value to hide. -/
def secretNamed (hidePairValue : Bool) (name : String) : Bool :=
  isSecretParamName name || (hidePairValue && name == "value")

mutual
/-- The walked value, and whether anything was replaced. -/
def scrubSecretNamedKeys : Json → Json × Bool
  | .obj fields =>
    let r := scrubFields (isSecretNameValuePair plainNames fields) fields
    (.obj r.1, r.2)
  | .arr items =>
    let r := scrubItems items
    (.arr r.1, r.2)
  | node => (node, false)

def scrubFields (hidePairValue : Bool) : Dict → Dict × Bool
  | [] => ([], false)
  | (name, value) :: rest =>
    let r := scrubFields hidePairValue rest
    if plainNames.contains name then ((name, value) :: r.1, r.2)
    else if secretNamed hidePairValue name && isSecretValue hideNumbers value then
      ((name, .str redactedParam) :: r.1, true)
    else
      let child := scrubSecretNamedKeys value
      ((name, child.1) :: r.1, child.2 || r.2)

def scrubItems : List Json → List Json × Bool
  | [] => ([], false)
  | item :: rest =>
    let child := scrubSecretNamedKeys item
    let r := scrubItems rest
    (child.1 :: r.1, child.2 || r.2)
end

/-- The value that stands under a secret-shaped name is the marker, or one the walk lets pass. -/
def hiddenValue (value : Json) : Bool :=
  match value with
  | .str s => s == redactedParam
  | v => !isSecretValue hideNumbers v

mutual
/-- No value is left under a secret-shaped name, at any depth. -/
def secretFree : Json → Bool
  | .obj fields => secretFreeFields (isSecretNameValuePair plainNames fields) fields
  | .arr items => secretFreeItems items
  | _ => true

def secretFreeFields (hidePairValue : Bool) : Dict → Bool
  | [] => true
  | (name, value) :: rest =>
    (plainNames.contains name ||
      (if secretNamed hidePairValue name then hiddenValue hideNumbers value
       else secretFree value)) && secretFreeFields hidePairValue rest

def secretFreeItems : List Json → Bool
  | [] => true
  | item :: rest => secretFree item && secretFreeItems rest
end

/-! ## What the walk leaves behind -/

variable {hideNumbers} {plainNames}

theorem secretNamed_name (p : Bool) : secretNamed p "name" = false := by
  cases p <;> decide

section
variable {value : Json} (h : isSecretValue hideNumbers value = false)
include h

theorem hiddenValue_of_not_secretValue : hiddenValue hideNumbers value = true := by
  cases value with
  | str s | arr xs | obj fs => simp [isSecretValue] at h
  | null | bool b => simp [hiddenValue, isSecretValue]
  | int i | float t => simp [hiddenValue, h]

theorem scrub_eq_self_of_not_secretValue :
    scrubSecretNamedKeys hideNumbers plainNames value = (value, false) := by
  cases value with
  | str s | arr xs | obj fs => simp [isSecretValue] at h
  | null | bool b | int i | float t => simp [scrubSecretNamedKeys]

end

theorem asStr?_scrub (value : Json) :
    (scrubSecretNamedKeys hideNumbers plainNames value).1.asStr? = value.asStr? := by
  cases value <;> simp [scrubSecretNamedKeys, Json.asStr?]

/-- The walk keeps every key. -/
theorem dictGet_scrubFields_isSome (p : Bool) (key : String) : ∀ fields : Dict,
    (dictGet (scrubFields hideNumbers plainNames p fields).1 key).isSome =
      (dictGet fields key).isSome
  | [] => by simp [scrubFields]
  | (name, value) :: rest => by
    have ih := dictGet_scrubFields_isSome p key rest
    simp only [scrubFields]
    split
    · by_cases hk : name = key <;> simp [dictGet, hk, ih]
    · split
      · by_cases hk : name = key <;> simp [dictGet, hk, ih]
      · by_cases hk : name = key <;> simp [dictGet, hk, ih]

/-- The `name` of a name/value pair is not itself secret-named, so it survives the walk. -/
theorem dictGetStr_name_scrubFields (p : Bool) : ∀ fields : Dict,
    dictGetStr (scrubFields hideNumbers plainNames p fields).1 "name" = dictGetStr fields "name"
  | [] => by simp [scrubFields]
  | (name, value) :: rest => by
    have ih := dictGetStr_name_scrubFields p rest
    simp only [dictGetStr] at ih ⊢
    by_cases hk : name = "name"
    · subst hk
      simp only [scrubFields, secretNamed_name, Bool.false_and, Bool.false_eq_true, if_false]
      split
      · simp [dictGet]
      · simp [dictGet, asStr?_scrub]
    · simp only [scrubFields]
      split
      · simp [dictGet, hk, ih]
      · split
        · simp [dictGet, hk, ih]
        · simp [dictGet, hk, ih]

theorem isSecretNameValuePair_eq (fields : Dict) :
    isSecretNameValuePair plainNames fields =
      ((dictGet fields "value").isSome &&
        match dictGetStr fields "name" with
        | some name => !plainNames.contains name && isSecretParamName name
        | none => false) := by
  unfold isSecretNameValuePair
  cases dictGet fields "value" <;> cases dictGetStr fields "name" <;> simp

theorem isSecretNameValuePair_scrubFields (p : Bool) (fields : Dict) :
    isSecretNameValuePair plainNames (scrubFields hideNumbers plainNames p fields).1 =
      isSecretNameValuePair plainNames fields := by
  rw [isSecretNameValuePair_eq, isSecretNameValuePair_eq, dictGet_scrubFields_isSome,
    dictGetStr_name_scrubFields]

mutual
/-- **After the walk no value is left under a secret-shaped name.** -/
theorem scrub_secretFree : ∀ node : Json,
    secretFree hideNumbers plainNames (scrubSecretNamedKeys hideNumbers plainNames node).1 = true
  | .null | .bool b | .int i | .float t | .str s => by simp [scrubSecretNamedKeys, secretFree]
  | .arr items => by
    simp only [scrubSecretNamedKeys, secretFree]
    exact scrubItems_secretFree items
  | .obj fields => by
    simp only [scrubSecretNamedKeys, secretFree, isSecretNameValuePair_scrubFields]
    exact scrubFields_secretFree _ fields

theorem scrubFields_secretFree (p : Bool) : ∀ fields : Dict,
    secretFreeFields hideNumbers plainNames p
      (scrubFields hideNumbers plainNames p fields).1 = true
  | [] => by simp [scrubFields, secretFreeFields]
  | (name, value) :: rest => by
    have ih := scrubFields_secretFree p rest
    have hv := scrub_secretFree value
    simp only [scrubFields]
    split
    · -- a plain name keeps its value
      rename_i hplain
      simp only [secretFreeFields, hplain, Bool.true_or, Bool.true_and]
      exact ih
    · split
      · rename_i hhide
        rw [Bool.and_eq_true] at hhide
        simp [secretFreeFields, hhide.1, hiddenValue, ih]
      · -- what the walk lets pass under a secret-shaped name has nothing below it
        rename_i hhide
        simp only [secretFreeFields, ih, Bool.and_true, Bool.or_eq_true]
        right
        by_cases hn : secretNamed p name = true
        · have hval : isSecretValue hideNumbers value = false := by
            simpa [hn] using hhide
          rw [if_pos hn, scrub_eq_self_of_not_secretValue hval]
          exact hiddenValue_of_not_secretValue hval
        · rw [if_neg hn]; exact hv

theorem scrubItems_secretFree : ∀ items : List Json,
    secretFreeItems hideNumbers plainNames
      (scrubItems hideNumbers plainNames items).1 = true
  | [] => by simp [scrubItems, secretFreeItems]
  | item :: rest => by
    simp [scrubItems, secretFreeItems, scrub_secretFree item, scrubItems_secretFree rest]
end

mutual
/-- A walk that found nothing saw a value with nothing to hide. The callers rely on it: they
store the walked value only when something was found. -/
theorem secretFree_of_not_found : ∀ node : Json,
    (scrubSecretNamedKeys hideNumbers plainNames node).2 = false →
      secretFree hideNumbers plainNames node = true
  | .null, _ | .bool b, _ | .int i, _ | .float t, _ | .str s, _ => by simp [secretFree]
  | .arr items, h => by
    simp only [scrubSecretNamedKeys] at h
    simp only [secretFree]
    exact secretFreeItems_of_not_found items h
  | .obj fields, h => by
    simp only [scrubSecretNamedKeys] at h
    simp only [secretFree]
    exact secretFreeFields_of_not_found _ fields h

theorem secretFreeFields_of_not_found (p : Bool) : ∀ fields : Dict,
    (scrubFields hideNumbers plainNames p fields).2 = false →
      secretFreeFields hideNumbers plainNames p fields = true
  | [], _ => by simp [secretFreeFields]
  | (name, value) :: rest, h => by
    simp only [scrubFields] at h
    split at h
    · rename_i hplain
      simp only [secretFreeFields, hplain, Bool.true_or, Bool.true_and]
      exact secretFreeFields_of_not_found p rest h
    · split at h
      · cases h
      · rename_i hhide
        simp only [Bool.or_eq_false_iff] at h
        have ih := secretFreeFields_of_not_found p rest h.2
        have hv := secretFree_of_not_found value h.1
        simp only [secretFreeFields, ih, Bool.and_true, Bool.or_eq_true]
        right
        by_cases hn : secretNamed p name = true
        · have hval : isSecretValue hideNumbers value = false := by
            simpa [hn] using hhide
          rw [if_pos hn]
          exact hiddenValue_of_not_secretValue hval
        · rw [if_neg hn]; exact hv

theorem secretFreeItems_of_not_found : ∀ items : List Json,
    (scrubItems hideNumbers plainNames items).2 = false →
      secretFreeItems hideNumbers plainNames items = true
  | [], _ => by simp [secretFreeItems]
  | item :: rest, h => by
    simp only [scrubItems, Bool.or_eq_false_iff] at h
    simp [secretFreeItems, secretFree_of_not_found item h.1,
      secretFreeItems_of_not_found rest h.2]
end

end

/-! ## Params that were already walked -/

mutual
/-- Whether a value is the marker the walk writes. -/
def holdsHiddenParamValues : Json → Bool
  | .str s => s == redactedParam
  | .obj fields => holdsHiddenFields fields
  | .arr items => holdsHiddenItems items
  | _ => false

def holdsHiddenFields : Dict → Bool
  | [] => false
  | (_, value) :: rest => holdsHiddenParamValues value || holdsHiddenFields rest

def holdsHiddenItems : List Json → Bool
  | [] => false
  | item :: rest => holdsHiddenParamValues item || holdsHiddenItems rest
end

mutual
theorem holdsHidden_of_found {hideNumbers : Bool} {plainNames : List String} : ∀ node : Json,
    (scrubSecretNamedKeys hideNumbers plainNames node).2 = true →
      holdsHiddenParamValues (scrubSecretNamedKeys hideNumbers plainNames node).1 = true
  | .null, h | .bool b, h | .int i, h | .float t, h | .str s, h =>
      by simp [scrubSecretNamedKeys] at h
  | .arr items, h => by
    simp only [scrubSecretNamedKeys] at h
    simp only [scrubSecretNamedKeys, holdsHiddenParamValues]
    exact holdsHiddenItems_of_found items h
  | .obj fields, h => by
    simp only [scrubSecretNamedKeys] at h
    simp only [scrubSecretNamedKeys, holdsHiddenParamValues]
    exact holdsHiddenFields_of_found _ fields h

theorem holdsHiddenFields_of_found {hideNumbers : Bool} {plainNames : List String} (p : Bool) :
    ∀ fields : Dict, (scrubFields hideNumbers plainNames p fields).2 = true →
      holdsHiddenFields (scrubFields hideNumbers plainNames p fields).1 = true
  | [], h => by simp [scrubFields] at h
  | (name, value) :: rest, h => by
    simp only [scrubFields] at h ⊢
    split at h
    · rename_i hplain
      rw [if_pos hplain]
      simp [holdsHiddenFields, holdsHiddenFields_of_found p rest h]
    · rename_i hplain
      rw [if_neg hplain]
      split at h
      · rename_i hhide
        rw [if_pos hhide]
        simp [holdsHiddenFields, holdsHiddenParamValues]
      · rename_i hhide
        rw [if_neg hhide]
        simp only [Bool.or_eq_true] at h
        simp only [holdsHiddenFields, Bool.or_eq_true]
        rcases h with hvalue | hrest
        · exact .inl (holdsHidden_of_found value hvalue)
        · exact .inr (holdsHiddenFields_of_found p rest hrest)

theorem holdsHiddenItems_of_found {hideNumbers : Bool} {plainNames : List String} :
    ∀ items : List Json, (scrubItems hideNumbers plainNames items).2 = true →
      holdsHiddenItems (scrubItems hideNumbers plainNames items).1 = true
  | [], h => by simp [scrubItems] at h
  | item :: rest, h => by
    simp only [scrubItems, Bool.or_eq_true] at h
    simp only [scrubItems, holdsHiddenItems, Bool.or_eq_true]
    rcases h with hitem | hrest
    · exact .inl (holdsHidden_of_found item hitem)
    · exact .inr (holdsHiddenItems_of_found rest hrest)
end

end Meho.Redaction
