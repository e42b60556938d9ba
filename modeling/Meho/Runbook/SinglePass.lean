import Meho.Runbook.PublishGate
import Meho.JsonDicts

/- Filling in with one pass (runbooks/substitution.py).

`onePass` goes through the template once and puts in place of every token its value. The
code takes two passes, the target's and then the parameters'; its comment says that a target
that looks like a parameter's token is not expanded. The second pass does expand it, and a
token that the target's text only completes as well. `OwnTokens` says that every parameter's
token of the text with the target in it stands in the template as a whole: exactly then the
two passes are one, whatever the parameters (`single_pass_iff`).

The proof goes along the template (`segments`). Tokens do not overlap, so a token that is not
the template's own costs letters that one pass keeps: with empty parameters what comes out is
shorter (`kept_le`). -/
namespace Meho.Runbook
open Meho.Lib

/-! ## One pass -/

inductive RunToken where
  | target
  | param (name : List Char)
  deriving DecidableEq, Repr

/-- A token of a run, of either kind. -/
def runTokenPattern : Pattern RunToken := fun s =>
  match runTargetPattern s with
  | some found => some (found.1, .target)
  | none => (runParamsPattern s).map fun found => (found.1, .param found.2)

section OnePass
variable (str : Json → String) (target : String) (params : Dict)

def tokenValue : RunToken → Except String (List Char)
  | .target => .ok target.toList
  | .param name => lookupParam str params name

def fillTokens : List (Piece Char RunToken) → Except String (List Char)
  | [] => .ok []
  | .lit a :: rest => do
    let filled ← fillTokens rest
    pure (a :: filled)
  | .hit token :: rest => do
    let found ← tokenValue str target params token
    let filled ← fillTokens rest
    pure (found ++ filled)

/-- Every token of the template replaced once. -/
def onePassString (text : String) : Except String String := do
  let filled ← fillTokens str target params (pieces id runTokenPattern 0 text.toList)
  pure (String.ofList filled)

mutual
/-- A value with its texts changed; keys stay as they are. -/
def mapTexts (change : String → Except String String) : Json → Except String Json
  | .str text => do
    let changed ← change text
    pure (.str changed)
  | .obj fields => do
    let changed ← mapFields change fields
    pure (.obj changed)
  | .arr items => do
    let changed ← mapItems change items
    pure (.arr changed)
  | value => .ok value

def mapItems (change : String → Except String String) : List Json → Except String (List Json)
  | [] => .ok []
  | item :: items => do
    let changed ← mapTexts change item
    let rest ← mapItems change items
    pure (changed :: rest)

def mapFields (change : String → Except String String) :
    List (String × Json) → Except String (List (String × Json))
  | [] => .ok []
  | (key, value) :: fields => do
    let changed ← mapTexts change value
    let rest ← mapFields change fields
    pure ((key, changed) :: rest)
end

def onePass (value : Json) : Except String Json :=
  mapTexts (onePassString str target params) value

end OnePass

/-! ## Values, text by text -/

section Texts
variable {f g : String → Except String String}

mutual
theorem resolveSubstitutions_eq_mapTexts (str : Json → String) (target : String) (params : Dict) :
    ∀ v : Json, resolveSubstitutions str target params v =
      mapTexts (resolveString str target params) v
  | .str _ => rfl
  | .obj fields => by
    rw [resolveSubstitutions, mapTexts, resolveFields_eq_mapFields str target params fields]
  | .arr items => by
    rw [resolveSubstitutions, mapTexts, resolveItems_eq_mapItems str target params items]
  | .null => rfl
  | .bool _ => rfl
  | .int _ => rfl
  | .float _ => rfl

theorem resolveItems_eq_mapItems (str : Json → String) (target : String) (params : Dict) :
    ∀ items : List Json, resolveItems str target params items =
      mapItems (resolveString str target params) items
  | [] => rfl
  | item :: items => by
    rw [resolveItems, mapItems, resolveSubstitutions_eq_mapTexts str target params item,
      resolveItems_eq_mapItems str target params items]

theorem resolveFields_eq_mapFields (str : Json → String) (target : String) (params : Dict) :
    ∀ fields : List (String × Json), resolveFields str target params fields =
      mapFields (resolveString str target params) fields
  | [] => rfl
  | (key, value) :: fields => by
    rw [resolveFields, mapFields, resolveSubstitutions_eq_mapTexts str target params value,
      resolveFields_eq_mapFields str target params fields]
end

mutual
theorem mapTexts_congr : ∀ v : Json, (∀ t ∈ valueTexts v, f t = g t) → mapTexts f v = mapTexts g v
  | .str text, h => by rw [mapTexts, mapTexts, h text List.mem_cons_self]
  | .obj fields, h => by rw [mapTexts, mapTexts, mapFields_congr fields h]
  | .arr items, h => by rw [mapTexts, mapTexts, mapItems_congr items h]
  | .null, _ => rfl
  | .bool _, _ => rfl
  | .int _, _ => rfl
  | .float _, _ => rfl

theorem mapItems_congr : ∀ items : List Json, (∀ t ∈ itemTexts items, f t = g t) →
    mapItems f items = mapItems g items
  | [], _ => rfl
  | item :: items, h => by
    rw [mapItems, mapItems, mapTexts_congr item fun t ht => h t (List.mem_append_left _ ht),
      mapItems_congr items fun t ht => h t (List.mem_append_right _ ht)]

theorem mapFields_congr : ∀ fields : List (String × Json), (∀ t ∈ fieldTexts fields, f t = g t) →
    mapFields f fields = mapFields g fields
  | [], _ => rfl
  | (key, value) :: fields, h => by
    rw [mapFields, mapFields, mapTexts_congr value fun t ht => h t (List.mem_append_left _ ht),
      mapFields_congr fields fun t ht => h t (List.mem_append_right _ ht)]
end

mutual
/-- The texts that come out, where every text gives one. -/
theorem mapTexts_ok {change : String → String} : ∀ v : Json,
    (∀ t ∈ valueTexts v, f t = .ok (change t)) →
      ∃ out, mapTexts f v = .ok out ∧ valueTexts out = (valueTexts v).map change
  | .str text, h => by
    refine ⟨.str (change text), ?_, rfl⟩
    rw [mapTexts, h text List.mem_cons_self]
    rfl
  | .obj fields, h => by
    obtain ⟨out, hout, htexts⟩ := mapFields_ok fields h
    exact ⟨.obj out, by rw [mapTexts, hout]; rfl, htexts⟩
  | .arr items, h => by
    obtain ⟨out, hout, htexts⟩ := mapItems_ok items h
    exact ⟨.arr out, by rw [mapTexts, hout]; rfl, htexts⟩
  | .null, _ => ⟨.null, rfl, rfl⟩
  | .bool b, _ => ⟨.bool b, rfl, rfl⟩
  | .int i, _ => ⟨.int i, rfl, rfl⟩
  | .float text, _ => ⟨.float text, rfl, rfl⟩

theorem mapItems_ok {change : String → String} : ∀ items : List Json,
    (∀ t ∈ itemTexts items, f t = .ok (change t)) →
      ∃ out, mapItems f items = .ok out ∧ itemTexts out = (itemTexts items).map change
  | [], _ => ⟨[], rfl, rfl⟩
  | item :: items, h => by
    obtain ⟨out, hout, htexts⟩ := mapTexts_ok item fun t ht => h t (List.mem_append_left _ ht)
    obtain ⟨rest, hrest, hrests⟩ := mapItems_ok items fun t ht => h t (List.mem_append_right _ ht)
    refine ⟨out :: rest, by rw [mapItems, hout, hrest]; rfl, ?_⟩
    rw [itemTexts, itemTexts, htexts, hrests, List.map_append]

theorem mapFields_ok {change : String → String} : ∀ fields : List (String × Json),
    (∀ t ∈ fieldTexts fields, f t = .ok (change t)) →
      ∃ out, mapFields f fields = .ok out ∧ fieldTexts out = (fieldTexts fields).map change
  | [], _ => ⟨[], rfl, rfl⟩
  | (key, value) :: fields, h => by
    obtain ⟨out, hout, htexts⟩ := mapTexts_ok value fun t ht => h t (List.mem_append_left _ ht)
    obtain ⟨rest, hrest, hrests⟩ := mapFields_ok fields fun t ht => h t (List.mem_append_right _ ht)
    refine ⟨(key, out) :: rest, by rw [mapFields, hout, hrest]; rfl, ?_⟩
    rw [fieldTexts, fieldTexts, htexts, hrests, List.map_append]
end

/-- Where all texts give one, values that come out the same have the same texts. -/
theorem eq_of_mapTexts {change change' : String → String} {v : Json}
    (hf : ∀ t ∈ valueTexts v, f t = .ok (change t))
    (hg : ∀ t ∈ valueTexts v, g t = .ok (change' t)) (h : mapTexts f v = mapTexts g v) :
    ∀ t ∈ valueTexts v, change t = change' t := by
  obtain ⟨out, hout, htexts⟩ := mapTexts_ok v hf
  obtain ⟨out', hout', htexts'⟩ := mapTexts_ok v hg
  have heq : out = out' := Except.ok.inj (hout.symm.trans (h.trans hout'))
  rw [heq, htexts'] at htexts
  exact fun t ht => (List.map_inj_left.mp htexts t ht).symm

end Texts

/-! ## Along the template -/

theorem runTokenPattern_eq_none {s : List Char} :
    runTokenPattern s = none ↔ runTargetPattern s = none ∧ runParamsPattern s = none := by
  unfold runTokenPattern
  cases runTargetPattern s with
  | some found => simp
  | none => simp

theorem runTokenPattern_target (rest : List Char) :
    runTokenPattern (runTargetToken ++ rest) = some (runTargetToken.length, .target) := by
  unfold runTokenPattern
  rw [runTargetPattern_token]

variable {name : List Char}

theorem params_ne_target : paramsPath ++ name ≠ targetPath := by
  intro h
  have hletter : (paramsPath ++ name)[4]? = some 'p' := rfl
  rw [h] at hletter
  exact absurd hletter (by decide)

theorem no_open_in_params (h : isName name = true) : ¬ tokenOpen <:+: paramsPath ++ name := by
  intro hopen
  have hmem : '$' ∈ paramsPath ++ name := hopen.subset List.mem_cons_self
  rcases List.mem_append.mp hmem with hmem | hmem
  · exact absurd hmem (by decide)
  · exact isName_ne_dollar h hmem

theorem runTargetPattern_param (h : isName name = true) (rest : List Char) :
    runTargetPattern (runParamToken name ++ rest) = none :=
  runTargetPattern_ne (closed_paramsPath h) params_ne_target rest

theorem runTokenPattern_param (h : isName name = true) (rest : List Char) :
    runTokenPattern (runParamToken name ++ rest) =
      some ((runParamToken name).length, .param name) := by
  unfold runTokenPattern
  rw [runTargetPattern_param h, runParamsPattern_token h]
  rfl

theorem runParamToken_ne_nil (name : List Char) : runParamToken name ≠ [] := by
  intro h
  cases h

/-- A text goes on with a target's token, a parameter's, or a letter where neither starts. -/
theorem segments {motive : Nat → List Char → Prop} (nil : ∀ n, motive n [])
    (target : ∀ n rest, motive (n + runTargetToken.length) rest →
      motive n (runTargetToken ++ rest))
    (param : ∀ n name rest, isName name = true → motive (n + (runParamToken name).length) rest →
      motive n (runParamToken name ++ rest))
    (lit : ∀ n c rest, runTokenPattern (c :: rest) = none → motive (n + 1) rest →
      motive n (c :: rest)) :
    ∀ n text, motive n text := by
  intro n text
  induction hlen : text.length using Nat.strongRecOn generalizing n text with
  | ind len ih =>
    cases text with
    | nil => exact nil n
    | cons c text =>
      cases hmatch : runTokenPattern (c :: text) with
      | none => exact lit n c text hmatch (ih text.length (by simp [← hlen]) _ _ rfl)
      | some found =>
        unfold runTokenPattern at hmatch
        cases htarget : runTargetPattern (c :: text) with
        | some found' =>
          obtain ⟨-, rest, hrest⟩ := runTargetPattern_some htarget
          rw [hrest] at hlen ⊢
          refine target n rest (ih rest.length ?_ _ _ rfl)
          rw [← hlen, List.length_append]
          exact Nat.lt_add_of_pos_left (by decide)
        | none =>
          rw [htarget] at hmatch
          obtain ⟨found', hparam, -⟩ := Option.map_eq_some_iff.mp hmatch
          obtain ⟨hname, -, rest, hrest⟩ := runParamsPattern_some hparam
          rw [hrest] at hlen ⊢
          refine param n found'.2 rest hname (ih rest.length ?_ _ _ rfl)
          rw [← hlen, List.length_append]
          exact Nat.lt_add_of_pos_left (List.length_pos_iff.mpr (runParamToken_ne_nil _))

/-- The template from place `n` on, with the target in it. -/
def standing (target : String) (n : Nat) (text : List Char) : List Mark :=
  withTarget Prod.fst unmarked target (markFrom n text)

section Standing
variable (target : String) (n : Nat)

theorem standing_target (rest : List Char) :
    standing target n (runTargetToken ++ rest) =
      target.toList.map unmarked ++ standing target (n + runTargetToken.length) rest := by
  have hne : markFrom n runTargetToken ≠ [] := fun h => nomatch h
  have hhit : runTargetPattern ((markFrom n runTargetToken ++
      markFrom (n + runTargetToken.length) rest).map Prod.fst) =
        some ((markFrom n runTargetToken).length, ()) := by
    rw [List.map_append, markFrom_chars, markFrom_chars, runTargetPattern_token, markFrom_length]
  rw [standing, withTarget, replaceAll, markFrom_append, pieces_hit Prod.fst _ hne hhit]
  rfl

theorem standing_param {name : List Char} (h : isName name = true) (rest : List Char) :
    standing target n (runParamToken name ++ rest) =
      markFrom n (runParamToken name) ++
        standing target (n + (runParamToken name).length) rest := by
  have hkept := pieces_token (no_open_in_params h) (fun t => runTargetPattern_open)
    (runTargetPattern_param h) n (markFrom (n + (runParamToken name).length) rest)
  have htoken : token (paramsPath ++ name) = runParamToken name := rfl
  rw [htoken] at hkept
  rw [standing, withTarget, replaceAll, markFrom_append, hkept, expand_append, expand_lits]
  rfl

theorem standing_lit {c : Char} {rest : List Char} (h : runTargetPattern (c :: rest) = none) :
    standing target n (c :: rest) = (c, some n) :: standing target (n + 1) rest := by
  have hmarks : markFrom n (c :: rest) = (c, some n) :: markFrom (n + 1) rest := rfl
  have hnone : runTargetPattern (((c, some n) :: markFrom (n + 1) rest).map Prod.fst) = none := by
    rw [List.map_cons, markFrom_chars, h]
  rw [standing, withTarget, replaceAll, hmarks, pieces, hnone]
  rfl

/-- What is left of the template stands at its place in it. -/
theorem mem_standing {text : List Char} {c : Char} {j : Nat}
    (h : (c, some j) ∈ standing target n text) : n ≤ j ∧ text[j - n]? = some c := by
  have hmem : (c, some j) ∈ markFrom n text := by
    rcases mem_expand h with hlit | ⟨g, hvalue⟩
    · exact mem_of_lit_mem _ _ hlit
    · obtain ⟨d, -, hd⟩ := List.mem_map.mp hvalue
      cases hd
  obtain ⟨p, hp, heq⟩ := List.mem_map.mp hmem
  obtain ⟨d, k⟩ := p
  cases heq
  exact List.mk_mem_zipIdx_iff_le_and_getElem?_sub.mp hp

end Standing

/-! ## Own tokens -/

/-- Every parameter's token of a marked text is the template's: its letters stand there as they
stand here. -/
def OwnTokens (marked : List Mark) : Prop :=
  ∀ x tok y name, marked = x ++ tok ++ y → isName name = true →
    tok.map Prod.fst = runParamToken name → ∃ k, tok = markFrom k (runParamToken name)

variable {x y : List Mark}

theorem OwnTokens.tail (h : OwnTokens (x ++ y)) : OwnTokens y := by
  intro u tok v name hsplit hname hchars
  exact h (x ++ u) tok v name (by rw [hsplit]; simp) hname hchars

/-- A match at a place of a marked text, cut out. -/
theorem match_at {marked : List Mark} {found : Nat × List Char}
    (h : runParamsPattern (marked.map Prod.fst) = some found) :
    ∃ tok y, marked = tok ++ y ∧ isName found.2 = true ∧
      tok.map Prod.fst = runParamToken found.2 := by
  obtain ⟨hname, -, rest, hrest⟩ := runParamsPattern_some h
  refine ⟨marked.take (runParamToken found.2).length, marked.drop (runParamToken found.2).length,
    (List.take_append_drop _ _).symm, hname, ?_⟩
  rw [List.map_take, hrest, List.take_left]

/-- Where only the template's own tokens stand, none starts at a letter that starts none there. -/
theorem no_match_at_lit {target : String} {n : Nat} {c : Char} {rest : List Char}
    (hc : runTokenPattern (c :: rest) = none) (hown : OwnTokens (standing target n (c :: rest))) :
    runParamsPattern ((standing target n (c :: rest)).map Prod.fst) = none := by
  obtain ⟨htarget, hparam⟩ := runTokenPattern_eq_none.mp hc
  cases hmatch : runParamsPattern ((standing target n (c :: rest)).map Prod.fst) with
  | none => rfl
  | some found =>
    obtain ⟨tok, y, hsplit, hname, hchars⟩ := match_at hmatch
    obtain ⟨k, hk⟩ := hown [] tok y found.2 (by rw [hsplit]; rfl) hname hchars
    have hlit := standing_lit target n htarget
    have hplace : k = n := by
      rw [hk] at hsplit
      have hfirst := hsplit.symm.trans hlit
      exact Option.some.inj (congrArg Prod.snd (List.cons.inj hfirst).1)
    -- so the token stands at the front of the template
    have hfront : runParamToken found.2 <+: c :: rest := by
      refine List.prefix_iff_getElem?.mpr fun i hi => ?_
      have hget : (runParamToken found.2)[i]? = some (runParamToken found.2)[i] :=
        List.getElem?_eq_getElem hi
      have hmem : ((runParamToken found.2)[i], some (n + i)) ∈
          standing target n (c :: rest) := by
        rw [hsplit, hk, hplace]
        refine List.mem_append_left _ (List.mem_map.mpr ⟨((runParamToken found.2)[i], n + i), ?_, rfl⟩)
        exact List.mk_mem_zipIdx_iff_le_and_getElem?_sub.mpr
          ⟨Nat.le_add_right _ _, by rw [Nat.add_sub_cancel_left, hget]⟩
      have hat := (mem_standing target n hmem).2
      rw [Nat.add_sub_cancel_left] at hat
      exact hat
    obtain ⟨behind, hbehind⟩ := hfront
    rw [← hbehind, runParamsPattern_token hname] at hparam
    cases hparam

section Agree
variable {str : Json → String} {target : String} {params : Dict}

theorem fillParams_lits_append {α : Type} {value : Char → α} (x : List α)
    (ps : List (Piece α (List Char))) :
    fillParams value str params (x.map .lit ++ ps) =
      (fillParams value str params ps).map (x ++ ·) := by
  induction x with
  | nil =>
    show fillParams value str params ps = _
    cases fillParams value str params ps <;> rfl
  | cons a x ih =>
    rw [List.map_cons, List.cons_append, fillParams, ih]
    cases fillParams value str params ps <;> rfl

/-- Where the tokens are the template's own, the second pass fills in what one pass does. -/
theorem two_passes_of_own (n : Nat) (text : List Char)
    (hown : OwnTokens (standing target n text)) :
    (fillParams unmarked str params
        (pieces Prod.fst runParamsPattern 0 (standing target n text))).map (List.map Prod.fst) =
      fillTokens str target params (pieces id runTokenPattern 0 text) := by
  induction n, text using segments with
  | nil n => rfl
  | target n rest ih =>
    rw [standing_target] at hown ⊢
    have hvalue : (target.toList.map unmarked).map Prod.fst = target.toList := by
      rw [List.map_map]
      exact List.map_id _
    have hlits := pieces_lits Prod.fst runParamsPattern (x := target.toList.map unmarked)
      (s := standing target (n + runTargetToken.length) rest) fun u v huv hv => by
        cases hmatch : runParamsPattern
            ((v ++ standing target (n + runTargetToken.length) rest).map Prod.fst) with
        | none => rfl
        | some found =>
          -- a token here would start with a letter of the target
          obtain ⟨tok, y, hsplit, hname, hchars⟩ := match_at hmatch
          obtain ⟨k, hk⟩ := hown u tok y found.2
            (by rw [huv, List.append_assoc, hsplit, List.append_assoc]) hname hchars
          cases v with
          | nil => exact absurd rfl hv
          | cons a v =>
            rw [hk] at hsplit
            have ha : a = ('$', some k) := (List.cons.inj hsplit).1
            have hmem : a ∈ target.toList.map unmarked := by
              rw [huv]
              exact List.mem_append_right _ List.mem_cons_self
            obtain ⟨c, -, hc⟩ := List.mem_map.mp hmem
            rw [ha] at hc
            cases hc
    have hhit : pieces id runTokenPattern 0 (runTargetToken ++ rest) =
        .hit .target :: pieces id runTokenPattern 0 rest :=
      pieces_hit id runTokenPattern (by decide) (by
        rw [List.map_id]
        exact runTokenPattern_target rest)
    rw [hlits, fillParams_lits_append, hhit, fillTokens, ← ih hown.tail, tokenValue]
    cases fillParams unmarked str params
        (pieces Prod.fst runParamsPattern 0 (standing target (n + runTargetToken.length) rest)) with
    | error e => rfl
    | ok filled =>
      show Except.ok ((target.toList.map unmarked ++ filled).map Prod.fst) =
        Except.ok (target.toList ++ filled.map Prod.fst)
      rw [List.map_append, hvalue]
  | param n name rest hname ih =>
    rw [standing_param target n hname] at hown ⊢
    have hmarked : markFrom n (runParamToken name) ≠ [] := fun h => nomatch h
    rw [pieces_hit Prod.fst runParamsPattern hmarked (by
        rw [List.map_append, markFrom_chars, markFrom_length]
        exact runParamsPattern_token hname _),
      pieces_hit id runTokenPattern (runParamToken_ne_nil name) (by
        rw [List.map_id]
        exact runTokenPattern_param hname rest),
      fillParams, fillTokens, ← ih hown.tail, tokenValue]
    cases lookupParam str params name with
    | error e => rfl
    | ok found =>
      cases fillParams unmarked str params (pieces Prod.fst runParamsPattern 0
          (standing target (n + (runParamToken name).length) rest)) with
      | error e => rfl
      | ok filled =>
        show Except.ok ((found.map unmarked ++ filled).map Prod.fst) =
          Except.ok (found ++ filled.map Prod.fst)
        rw [List.map_append, List.map_map]
        exact congrArg (fun x => Except.ok (x ++ filled.map Prod.fst)) (List.map_id found)
  | lit n c rest hc ih =>
    have hnone := no_match_at_lit hc hown
    have hlit := @standing_lit target n _ rest (runTokenPattern_eq_none.mp hc).1
    rw [hlit] at hown hnone ⊢
    have hcode : pieces Prod.fst runParamsPattern 0 ((c, some n) :: standing target (n + 1) rest) =
        .lit (c, some n) :: pieces Prod.fst runParamsPattern 0 (standing target (n + 1) rest) := by
      rw [pieces, hnone]
    have hone : pieces id runTokenPattern 0 (c :: rest) =
        .lit c :: pieces id runTokenPattern 0 rest := by
      rw [pieces, List.map_id, hc]
    have htail : OwnTokens (standing target (n + 1) rest) :=
      OwnTokens.tail (x := [(c, some n)]) hown
    rw [hcode, hone, fillParams, fillTokens, ← ih htail]
    cases fillParams unmarked str params
        (pieces Prod.fst runParamsPattern 0 (standing target (n + 1) rest)) <;> rfl

end Agree

/-! ## Empty parameters -/

/-- The letters that one pass leaves where every parameter is empty. -/
def oneKept (target : String) : List (Piece Char RunToken) → Nat
  | [] => 0
  | .lit _ :: rest => 1 + oneKept target rest
  | .hit .target :: rest => target.length + oneKept target rest
  | .hit (.param _) :: rest => oneKept target rest

theorem runParamsPattern_head {t : List Char} (h : t.head? ≠ some '$') :
    runParamsPattern t = none := by
  refine runParamsPattern_open fun hopen => h ?_
  obtain ⟨rest, rfl⟩ := hopen
  rfl

theorem runParamsPattern_fits (t : List Char) (n : Nat) (name : List Char)
    (h : runParamsPattern t = some (n, name)) : n ≤ t.length := by
  obtain ⟨-, rfl, rest, rfl⟩ := runParamsPattern_some h
  rw [List.length_append]
  exact Nat.le_add_right _ _

theorem outside_append_params (x s : List Mark) :
    outside Prod.fst runParamsPattern (x ++ s) ≤ x.length + outside Prod.fst runParamsPattern s ∧
      (x ≠ [] → (runParamsPattern ((x ++ s).map Prod.fst)).isSome = true →
        outside Prod.fst runParamsPattern (x ++ s) <
          x.length + outside Prod.fst runParamsPattern s) :=
  outside_append Prod.fst runParamsPattern runParamsPattern_headed
    (fun _ => runParamsPattern_head) runParamsPattern_fits s x

variable {s : List Mark}

theorem no_match_of_outside
    (h : outside Prod.fst runParamsPattern (x ++ s) = x.length + outside Prod.fst runParamsPattern s)
    {u v : List Mark} (huv : x = u ++ v) (hv : v ≠ []) :
    runParamsPattern ((v ++ s).map Prod.fst) = none := by
  cases hmatch : runParamsPattern ((v ++ s).map Prod.fst) with
  | none => rfl
  | some found =>
    have hless := (outside_append_params v s).2 hv (by rw [hmatch]; rfl)
    have hfront := (outside_append_params u (v ++ s)).1
    rw [huv, List.append_assoc, List.length_append] at h
    omega

theorem match_of_token {tok : List Mark} (hname : isName name = true)
    (hchars : tok.map Prod.fst = runParamToken name) :
    runParamsPattern ((tok ++ y).map Prod.fst) = some ((runParamToken name).length, name) := by
  rw [List.map_append, hchars, runParamsPattern_token hname]

theorem ownTokens_append (hs : OwnTokens s)
    (hx : ∀ u v, x = u ++ v → v ≠ [] → ∀ tok y name, v ++ s = tok ++ y → isName name = true →
      tok.map Prod.fst = runParamToken name → ∃ k, tok = markFrom k (runParamToken name)) :
    OwnTokens (x ++ s) := by
  intro u tok y name hsplit hname hchars
  rw [List.append_assoc] at hsplit
  rcases List.append_eq_append_iff.mp hsplit with ⟨u', hu, hs'⟩ | ⟨v, hv, hs'⟩
  · exact hs u' tok y name (by rw [hs', List.append_assoc]) hname hchars
  · cases v with
    | nil =>
      rw [List.nil_append] at hs'
      exact hs [] tok y name (by rw [← hs']; rfl) hname hchars
    | cons a v => exact hx u (a :: v) hv nofun tok y name hs'.symm hname hchars

theorem own_token_param (hname : isName name = true) {n : Nat} {u v tok : List Mark}
    {other : List Char} (huv : markFrom n (runParamToken name) = u ++ v) (hv : v ≠ [])
    (hsplit : v ++ s = tok ++ y) (hother : isName other = true)
    (hchars : tok.map Prod.fst = runParamToken other) :
    ∃ k, tok = markFrom k (runParamToken other) := by
  have hletters : runParamToken name = u.map Prod.fst ++ v.map Prod.fst := by
    rw [← List.map_append, ← huv, markFrom_chars]
  have hopens : tokenOpen <+: (v ++ s).map Prod.fst := by
    rw [hsplit, List.map_append, hchars]
    exact ⟨(paramsPath ++ other) ++ [tokenClose] ++ y.map Prod.fst, by simp [runParamToken]⟩
  by_cases hu : u = []
  · subst hu
    rw [List.nil_append] at huv
    have heq : name ++ tokenClose :: s.map Prod.fst = other ++ tokenClose :: y.map Prod.fst := by
      have hwhole := congrArg (List.map Prod.fst) hsplit
      rw [← huv, List.map_append, List.map_append, markFrom_chars, hchars] at hwhole
      simpa [runParamToken] using hwhole
    have hnames : name = other := closed_inj (isName_closed hname) (isName_closed hother) heq
    subst hnames
    have hlength : (markFrom n (runParamToken name)).length = tok.length := by
      rw [markFrom_length, ← hchars, List.length_map]
    rw [← huv] at hsplit
    exact ⟨n, ((List.append_inj hsplit hlength).1).symm⟩
  · rw [List.map_append] at hopens
    exact absurd hopens (not_open_inside (no_open_in_params hname) hletters
      (fun hnil => hu (List.map_eq_nil_iff.mp hnil)) (fun hnil => hv (List.map_eq_nil_iff.mp hnil)) _)

/-- The second pass leaves no more letters than one pass, and as many only where the tokens are
the template's own. -/
theorem kept_le (target : String) (n : Nat) (text : List Char) :
    outside Prod.fst runParamsPattern (standing target n text) ≤
        oneKept target (pieces id runTokenPattern 0 text) ∧
      (outside Prod.fst runParamsPattern (standing target n text) =
          oneKept target (pieces id runTokenPattern 0 text) →
        OwnTokens (standing target n text)) := by
  induction n, text using segments with
  | nil n =>
    refine ⟨Nat.le_refl 0, fun _ => ?_⟩
    intro x tok y name hsplit hname hchars
    have htok : tok = [] := by
      have hnil := List.append_eq_nil_iff.mp hsplit.symm
      exact (List.append_eq_nil_iff.mp hnil.1).2
    subst htok
    cases hchars
  -- the target may bring tokens of its own, which is the slack in the bound
  | target n rest ih =>
    obtain ⟨hle, hown⟩ := ih
    have hone : pieces id runTokenPattern 0 (runTargetToken ++ rest) =
        .hit .target :: pieces id runTokenPattern 0 rest :=
      pieces_hit id runTokenPattern (by decide) (by
        rw [List.map_id]
        exact runTokenPattern_target rest)
    have hfront := (outside_append_params (target.toList.map unmarked)
      (standing target (n + runTargetToken.length) rest)).1
    have hlength : (target.toList.map unmarked).length = target.length := by
      rw [List.length_map, String.length_toList]
    rw [standing_target, hone, oneKept]
    refine ⟨by omega, fun heq => ?_⟩
    refine ownTokens_append (hown (by omega)) fun u v huv hv tok y name hsplit hname hchars => ?_
    -- at equality the target's characters take part in no match
    have hnone := no_match_of_outside (s := standing target (n + runTargetToken.length) rest)
      (by omega) huv hv
    rw [hsplit, match_of_token hname hchars] at hnone
    cases hnone
  | param n name rest hname ih =>
    obtain ⟨hle, hown⟩ := ih
    have hmarked : markFrom n (runParamToken name) ≠ [] := fun h => nomatch h
    have hcode := outside_hit Prod.fst runParamsPattern hmarked
      (s := standing target (n + (runParamToken name).length) rest) (g := name) (by
        rw [List.map_append, markFrom_chars, markFrom_length]
        exact runParamsPattern_token hname _)
    have hone : pieces id runTokenPattern 0 (runParamToken name ++ rest) =
        .hit (.param name) :: pieces id runTokenPattern 0 rest :=
      pieces_hit id runTokenPattern (runParamToken_ne_nil name) (by
        rw [List.map_id]
        exact runTokenPattern_param hname rest)
    rw [standing_param target n hname, hcode, hone, oneKept]
    refine ⟨hle, fun heq => ?_⟩
    exact ownTokens_append (hown heq) fun u v huv hv tok y other hsplit hother hchars =>
      own_token_param hname huv hv hsplit hother hchars
  -- a character outside every token: at equality no match runs over it
  | lit n c rest hc ih =>
    obtain ⟨hle, hown⟩ := ih
    have hone : pieces id runTokenPattern 0 (c :: rest) =
        .lit c :: pieces id runTokenPattern 0 rest := by
      rw [pieces, List.map_id, hc]
    have hfront := (outside_append_params [(c, some n)] (standing target (n + 1) rest)).1
    rw [List.length_singleton, List.singleton_append] at hfront
    rw [standing_lit target n (runTokenPattern_eq_none.mp hc).1, hone, oneKept]
    refine ⟨by omega, fun heq => ?_⟩
    refine ownTokens_append (x := [(c, some n)]) (s := standing target (n + 1) rest)
      (hown (by omega))
      fun u v huv hv tok y name hsplit hname hchars => ?_
    have hnone := no_match_of_outside (x := [(c, some n)]) (s := standing target (n + 1) rest)
      (by rw [List.length_singleton, List.singleton_append]; omega) huv hv
    rw [hsplit, match_of_token hname hchars] at hnone
    cases hnone

section Empty
variable {str : Json → String} {target : String} {params : Dict}

theorem fillParams_empty {ps : List (Piece Mark (List Char))}
    (h : ∀ name, .hit name ∈ ps → lookupParam str params name = .ok []) :
    fillParams unmarked str params ps = .ok (expand (fun _ => []) ps) := by
  induction ps with
  | nil => rfl
  | cons p ps ih =>
    have hrest := ih fun name hmem => h name (List.mem_cons_of_mem _ hmem)
    cases p with
    | lit a =>
      rw [fillParams, hrest]
      rfl
    | hit name =>
      rw [fillParams, h name List.mem_cons_self, hrest]
      rfl

theorem fillTokens_empty {ps : List (Piece Char RunToken)}
    (h : ∀ name, .hit (.param name) ∈ ps → lookupParam str params name = .ok []) :
    ∃ out, fillTokens str target params ps = .ok out ∧ out.length = oneKept target ps := by
  induction ps with
  | nil => exact ⟨[], rfl, rfl⟩
  | cons p ps ih =>
    obtain ⟨out, hout, hlength⟩ := ih fun name hmem => h name (List.mem_cons_of_mem _ hmem)
    cases p with
    | lit a =>
      refine ⟨a :: out, by rw [fillTokens, hout]; rfl, ?_⟩
      rw [List.length_cons, oneKept, hlength, Nat.add_comm]
    | hit token =>
      cases token with
      | target =>
        refine ⟨target.toList ++ out, by rw [fillTokens, hout]; rfl, ?_⟩
        rw [List.length_append, oneKept, hlength, String.length_toList]
      | param name =>
        refine ⟨out, ?_, by rw [oneKept, hlength]⟩
        rw [fillTokens, tokenValue, h name List.mem_cons_self, hout]
        rfl

/-- The parameters that a text may ask for, in two passes or in one. -/
def askedNames (target : String) (text : String) : List (List Char) :=
  findAll Prod.fst runParamsPattern (standing target 0 text.toList) ++
    (findAll id runTokenPattern text.toList).filterMap fun
      | .target => none
      | .param name => some name

theorem mem_findAll {α γ : Type} {char : α → Char} {pattern : Pattern γ} {s : List α} {g : γ}
    (h : .hit g ∈ pieces char pattern 0 s) : g ∈ findAll char pattern s :=
  List.mem_filterMap.mpr ⟨_, h, rfl⟩

/-- All these parameters, empty. -/
def emptyParams (names : List (List Char)) : Dict :=
  names.map fun name => (String.ofList name, .str "")

theorem lookupParam_emptyParams (hstr : ∀ s, str (.str s) = s) {names : List (List Char)}
    {name : List Char} (h : name ∈ names) :
    lookupParam str (emptyParams names) name = .ok [] := by
  have hget : dictGet (emptyParams names) (String.ofList name) = some (.str "") := by
    induction names with
    | nil => cases h
    | cons first names ih =>
      rw [emptyParams, List.map_cons, dictGet_cons]
      split
      · rfl
      · rename_i hne
        cases h with
        | head => exact absurd rfl hne
        | tail _ h => exact ih h
  rw [lookupParam, hget]
  show Except.ok (str (.str "")).toList = _
  rw [hstr]
  rfl

end Empty

/-! ## When two passes are one -/

section SinglePass
variable (str : Json → String) (target : String)

theorem resolveString_eq (params : Dict) (text : String) :
    resolveString str target params text =
      ((fillParams unmarked str params (pieces Prod.fst runParamsPattern 0
        (standing target 0 text.toList))).map (List.map Prod.fst)).map String.ofList := by
  have herase : _ = resolveText id id str target params text.toList :=
    resolveText_erase str target params text.toList
  rw [resolveString, ← herase, resolveMarked, resolveText, standing]
  cases fillParams unmarked str params (pieces Prod.fst runParamsPattern 0
    (withTarget Prod.fst unmarked target (markFrom 0 text.toList))) <;> rfl

theorem onePassString_eq (params : Dict) (text : String) :
    onePassString str target params text =
      (fillTokens str target params (pieces id runTokenPattern 0 text.toList)).map
        String.ofList := by
  rw [onePassString]
  cases fillTokens str target params (pieces id runTokenPattern 0 text.toList) <;> rfl

/-- With the parameters empty, a text comes out the same only where its tokens are its own. -/
theorem own_of_empty {v : Json} (hstr : ∀ s, str (.str s) = s)
    (h : ∀ params, resolveSubstitutions str target params v = onePass str target params v) :
    ∀ text ∈ valueTexts v, OwnTokens (standing target 0 text.toList) := by
  have hlookup : ∀ text ∈ valueTexts v, ∀ name ∈ askedNames target text,
      lookupParam str (emptyParams ((valueTexts v).flatMap (askedNames target))) name = .ok [] :=
    fun text htext name hname =>
      lookupParam_emptyParams hstr (List.mem_flatMap.mpr ⟨text, htext, hname⟩)
  -- parameters that are all empty leave the lengths to compare
  generalize emptyParams ((valueTexts v).flatMap (askedNames target)) = params at hlookup
  have htwo : ∀ text ∈ valueTexts v, resolveString str target params text =
      .ok (String.ofList ((replaceAll Prod.fst runParamsPattern (fun _ => [])
        (standing target 0 text.toList)).map Prod.fst)) := by
    intro text htext
    rw [resolveString_eq, fillParams_empty fun name hmem =>
      hlookup text htext name (List.mem_append_left _ (mem_findAll hmem))]
    rfl
  have hone : ∀ text ∈ valueTexts v, ∃ out,
      fillTokens str target params (pieces id runTokenPattern 0 text.toList) = .ok out ∧
        out.length = oneKept target (pieces id runTokenPattern 0 text.toList) := by
    intro text htext
    exact fillTokens_empty fun name hmem => hlookup text htext name
      (List.mem_append_right _ (List.mem_filterMap.mpr ⟨_, mem_findAll hmem, rfl⟩))
  have honePass : ∀ text ∈ valueTexts v, onePassString str target params text =
      .ok ((onePassString str target params text).toOption.getD "") := by
    intro text htext
    obtain ⟨out, hout, -⟩ := hone text htext
    rw [onePassString_eq, hout]
    rfl
  have heq := h params
  rw [resolveSubstitutions_eq_mapTexts] at heq
  have htexts := eq_of_mapTexts htwo honePass heq
  intro text htext
  obtain ⟨out, hout, hlength⟩ := hone text htext
  have hsame := htexts text htext
  rw [onePassString_eq, hout] at hsame
  have hlist : (replaceAll Prod.fst runParamsPattern (fun _ => [])
      (standing target 0 text.toList)).map Prod.fst = out := String.ofList_injective hsame
  refine (kept_le target 0 text.toList).2 ?_
  rw [← hlength, ← hlist, List.length_map]
  rfl

/-- **Two passes are one exactly where every token of a parameter, in a text with the target put
 in, stands in the template itself.** -/
theorem single_pass_iff (hstr : ∀ s, str (.str s) = s) (v : Json) :
    (∀ params, resolveSubstitutions str target params v = onePass str target params v) ↔
      ∀ text ∈ valueTexts v,
        OwnTokens (withTarget Prod.fst unmarked target (markFrom 0 text.toList)) := by
  constructor
  · exact own_of_empty str target hstr
  · intro hown params
    rw [resolveSubstitutions_eq_mapTexts]
    refine mapTexts_congr v fun text htext => ?_
    rw [resolveString_eq, two_passes_of_own 0 text.toList (hown text htext), onePassString_eq]

end SinglePass

theorem single_pass_iff_sample :
    (∀ params, resolveSubstitutions textPython.str "db-1" params (.str "on $\x7brun.target\x7d") =
        onePass textPython.str "db-1" params (.str "on $\x7brun.target\x7d")) ↔
      ∀ text ∈ ["on $\x7brun.target\x7d"],
        OwnTokens (withTarget Prod.fst unmarked "db-1" (markFrom 0 text.toList)) :=
  single_pass_iff textPython.str "db-1" (fun _ => rfl) (.str "on $\x7brun.target\x7d")

/-- A target that looks like a parameter's token is expanded. -/
theorem target_expanded_again :
    resolveSubstitutions textPython.str "$\x7brun.params.x\x7d" [("x", .str "v")]
        (.str "$\x7brun.target\x7d") = .ok (.str "v") ∧
      onePass textPython.str "$\x7brun.params.x\x7d" [("x", .str "v")]
        (.str "$\x7brun.target\x7d") = .ok (.str "$\x7brun.params.x\x7d") ∧
      "v" ≠ "$\x7brun.params.x\x7d" :=
  ⟨rfl, rfl, by decide⟩

end Meho.Runbook
