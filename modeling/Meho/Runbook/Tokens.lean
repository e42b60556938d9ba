import Meho.Runbook.Engine

/- What becomes of a template's tokens when a text is filled in.

A text is resolved with a mark on each character: its place in the template. What
comes of it carries the marks of the characters that were copied, so it can be
told whether a token of the template is left in it as it was (`LeftIn`), whatever
the values say. The marks change nothing (`resolveText_erase`).

Both patterns have a dollar sign only at their heads, so the scan is at no match
when it comes to one. From there a token that has no other token in it is either
replaced or copied as a whole: it is replaced exactly when it is spelled as the
patterns want it. So a text leaves a token behind if and only if one of them is
not (`leftIn_iff`). -/
namespace Meho.Runbook
open Meho.Lib

/-! ## Spelling -/

/-- `[a-z_][a-z0-9_]*`. -/
def isName (name : List Char) : Bool := name.head?.any isNameStart && name.all isNameChar

/-- What the two patterns of a run want between the braces. -/
def Exact (inner : List Char) : Prop :=
  inner = targetPath ∨ ∃ name, isName name = true ∧ inner = paramsPath ++ name

/-- A token of a text. -/
structure TokenAt (text a inner b : List Char) : Prop where
  split : text = a ++ (tokenOpen ++ inner ++ [tokenClose] ++ b)
  closed : tokenClose ∉ inner

/-- The text has a token. -/
def HasToken (text : List Char) : Prop := ∃ a inner b, TokenAt text a inner b

/-- **Every token is spelled as a run wants it**; of tokens within tokens, the innermost. -/
def Spelled (text : List Char) : Prop :=
  ∀ a inner b, TokenAt text a inner b → ¬ tokenOpen <:+: inner → Exact inner

variable {name : List Char}

theorem isName_ne_dollar (h : isName name = true) : '$' ∉ name := by
  intro hmem
  unfold isName at h
  rw [Bool.and_eq_true, List.all_eq_true] at h
  have hchar := h.2 '$' hmem
  revert hchar
  decide

theorem isName_closed (h : isName name = true) : tokenClose ∉ name := by
  intro hmem
  unfold isName at h
  rw [Bool.and_eq_true, List.all_eq_true] at h
  have hchar := h.2 tokenClose hmem
  revert hchar
  decide

theorem paramName_of_isName {rest : List Char} (h : isName name = true)
    (hrest : rest.head? = some tokenClose) : paramName (name ++ rest) = some (name, rest) := by
  unfold isName at h
  rw [Bool.and_eq_true] at h
  obtain ⟨hhead, hall⟩ := h
  have hstart : ((name ++ rest).head?.any isNameStart) = true := by
    cases name with
    | nil => cases hhead
    | cons c name => exact hhead
  have hstop : rest.takeWhile isNameChar = [] ∧ rest.dropWhile isNameChar = rest := by
    cases rest with
    | nil => cases hrest
    | cons c rest =>
      cases hrest
      exact ⟨rfl, rfl⟩
  have hname : ∀ c ∈ name, isNameChar c = true := List.all_eq_true.mp hall
  unfold paramName
  rw [if_pos hstart, List.takeWhile_append_of_pos hname, List.dropWhile_append_of_pos hname,
    hstop.1, hstop.2, List.append_nil]

theorem paramName_some {s rest : List Char} (h : paramName s = some (name, rest)) :
    isName name = true ∧ s = name ++ rest := by
  unfold paramName at h
  split at h
  · rename_i hstart
    cases h
    refine ⟨?_, List.takeWhile_append_dropWhile.symm⟩
    unfold isName
    rw [Bool.and_eq_true]
    constructor
    · cases s with
      | nil => cases hstart
      | cons c s =>
        have hc : isNameStart c = true := hstart
        have hchar : isNameChar c = true := by
          unfold isNameChar
          rw [hc, Bool.true_or]
        rw [List.takeWhile_cons_of_pos hchar]
        exact hc
    · exact List.all_takeWhile
  · cases h

/-! ## The patterns of a run -/

variable {t : List Char}

theorem runTargetPattern_some {n : Nat} {g : Unit} (h : runTargetPattern t = some (n, g)) :
    n = runTargetToken.length ∧ ∃ rest, t = runTargetToken ++ rest := by
  unfold runTargetPattern at h
  split at h
  · rename_i hfront
    cases h
    obtain ⟨rest, hrest⟩ := List.isPrefixOf_iff_prefix.mp hfront
    exact ⟨rfl, rest, hrest.symm⟩
  · cases h

theorem runTargetPattern_token (rest : List Char) :
    runTargetPattern (runTargetToken ++ rest) = some (runTargetToken.length, ()) := by
  unfold runTargetPattern
  rw [if_pos (List.isPrefixOf_iff_prefix.mpr (List.prefix_append _ _))]

/-- The token of a parameter. -/
def runParamToken (name : List Char) : List Char :=
  tokenOpen ++ (paramsPath ++ name) ++ [tokenClose]

theorem runParamsPattern_some {n : Nat} (h : runParamsPattern t = some (n, name)) :
    isName name = true ∧ n = (runParamToken name).length ∧ ∃ rest, t = runParamToken name ++ rest := by
  unfold runParamsPattern at h
  split at h
  · rename_i hfront
    obtain ⟨behind, rfl⟩ := List.isPrefixOf_iff_prefix.mp hfront
    rw [List.drop_left] at h
    split at h
    · rename_i name' rest hname
      obtain ⟨hisName, rfl⟩ := paramName_some hname
      split at h
      · rename_i hclose
        cases h
        cases rest with
        | nil => cases hclose
        | cons c rest =>
          cases hclose
          refine ⟨hisName, ?_, rest, ?_⟩
          · simp only [runParamToken, List.length_append, List.length_cons, List.length_nil]
            omega
          · simp [runParamToken]
      · cases h
    · cases h
  · cases h

theorem runParamsPattern_token (h : isName name = true) (rest : List Char) :
    runParamsPattern (runParamToken name ++ rest) = some ((runParamToken name).length, name) := by
  have hsplit : runParamToken name ++ rest =
      (tokenOpen ++ paramsPath) ++ (name ++ tokenClose :: rest) := by
    simp [runParamToken]
  unfold runParamsPattern
  rw [hsplit, if_pos (List.isPrefixOf_iff_prefix.mpr (List.prefix_append _ _)), List.drop_left,
    paramName_of_isName h rfl]
  simp only [List.head?_cons, if_true, Option.some.injEq, Prod.mk.injEq, and_true]
  simp only [runParamToken, List.length_append, List.length_cons, List.length_nil]
  omega

theorem runTargetPattern_headed : Headed runTargetPattern '$' := by
  intro t n g h
  obtain ⟨rfl, rest, rfl⟩ := runTargetPattern_some h
  rw [List.take_left]
  exact ⟨by decide, by decide⟩

theorem runParamsPattern_headed : Headed runParamsPattern '$' := by
  intro t n name h
  obtain ⟨hname, rfl, rest, rfl⟩ := runParamsPattern_some h
  rw [List.take_left]
  have htail : (runParamToken name).tail =
      '\x7b' :: (paramsPath ++ name) ++ [tokenClose] := rfl
  have hpos : 0 < (runParamToken name).length := by
    simp only [runParamToken, List.length_append, List.length_singleton]
    omega
  refine ⟨hpos, ?_⟩
  rw [htail, List.mem_append, List.mem_cons, List.mem_append]
  have hpath : '$' ∉ paramsPath := by decide
  have hclose : '$' ∉ [tokenClose] := by decide
  have hbrace : '$' ≠ '\x7b' := by decide
  simp [hpath, hclose, hbrace, isName_ne_dollar hname]

theorem runTargetPattern_open (h : ¬ tokenOpen <+: t) : runTargetPattern t = none := by
  cases hmatch : runTargetPattern t with
  | none => rfl
  | some found =>
    obtain ⟨-, rest, rfl⟩ := runTargetPattern_some hmatch
    refine absurd ?_ h
    exact ⟨targetPath ++ [tokenClose] ++ rest, rfl⟩

theorem runParamsPattern_open (h : ¬ tokenOpen <+: t) : runParamsPattern t = none := by
  cases hmatch : runParamsPattern t with
  | none => rfl
  | some found =>
    obtain ⟨-, -, rest, rfl⟩ := runParamsPattern_some hmatch
    refine absurd ?_ h
    exact ⟨paramsPath ++ found.2 ++ [tokenClose] ++ rest, by simp [runParamToken]⟩

/-! ## Tokens without tokens in them -/

theorem closed_inj {x y s : List Char} (hx : tokenClose ∉ x) (hy : tokenClose ∉ y)
    (h : x ++ tokenClose :: s = y ++ tokenClose :: t) : x = y := by
  induction x generalizing y with
  | nil =>
    cases y with
    | nil => rfl
    | cons c y =>
      have hc : tokenClose = c := (List.cons.inj h).1
      exact absurd (hc ▸ List.mem_cons_self) hy
  | cons c x ih =>
    cases y with
    | nil =>
      have hc : c = tokenClose := (List.cons.inj h).1
      exact absurd (hc ▸ List.mem_cons_self) hx
    | cons d y =>
      obtain ⟨rfl, hrest⟩ := List.cons.inj h
      rw [ih (fun hm => hx (List.mem_cons_of_mem c hm)) (fun hm => hy (List.mem_cons_of_mem c hm))
        hrest]

def token (inner : List Char) : List Char := tokenOpen ++ inner ++ [tokenClose]

theorem closed_targetPath : tokenClose ∉ targetPath := by decide

theorem closed_paramsPath (h : isName name = true) : tokenClose ∉ paramsPath ++ name := by
  rw [List.mem_append, not_or]
  exact ⟨by decide, isName_closed h⟩

section
variable {inner : List Char}

theorem runTargetPattern_ne (hclosed : tokenClose ∉ inner) (hne : inner ≠ targetPath)
    (rest : List Char) : runTargetPattern (token inner ++ rest) = none := by
  cases hmatch : runTargetPattern (token inner ++ rest) with
  | none => rfl
  | some found =>
    obtain ⟨-, rest', heq⟩ := runTargetPattern_some hmatch
    have hbehind : inner ++ tokenClose :: rest = targetPath ++ tokenClose :: rest' := by
      simpa [token, runTargetToken, tokenOpen] using heq
    exact absurd (closed_inj hclosed closed_targetPath hbehind) hne

theorem runParamsPattern_ne (hclosed : tokenClose ∉ inner)
    (hne : ¬ ∃ name, isName name = true ∧ inner = paramsPath ++ name) (rest : List Char) :
    runParamsPattern (token inner ++ rest) = none := by
  cases hmatch : runParamsPattern (token inner ++ rest) with
  | none => rfl
  | some found =>
    obtain ⟨hname, -, rest', heq⟩ := runParamsPattern_some hmatch
    have hbehind : inner ++ tokenClose :: rest =
        (paramsPath ++ found.2) ++ tokenClose :: rest' := by
      simpa [token, runParamToken, tokenOpen] using heq
    exact absurd ⟨found.2, hname, closed_inj hclosed (closed_paramsPath hname) hbehind⟩ hne

theorem open_infix_inner (h : tokenOpen <:+: '\x7b' :: inner ++ [tokenClose]) :
    tokenOpen <:+: inner := by
  obtain ⟨p, q, heq⟩ := h
  cases p with
  | nil =>
    have hhead : '$' = '\x7b' := (List.cons.inj heq).1
    exact absurd hhead (by decide)
  | cons c p =>
    have htail : p ++ tokenOpen ++ q = inner ++ [tokenClose] := (List.cons.inj heq).2
    rcases List.eq_nil_or_concat q with rfl | ⟨q', z, rfl⟩
    · have hlast : p ++ ['$'] ++ ['\x7b'] = inner ++ [tokenClose] := by
        simpa [tokenOpen] using htail
      have hz := (List.append_inj' hlast rfl).2
      exact absurd hz (by decide)
    · have hlast : (p ++ tokenOpen ++ q') ++ [z] = inner ++ [tokenClose] := by
        simpa using htail
      exact ⟨p, q', (List.append_inj' hlast rfl).1⟩

theorem not_open_inside {u v : List Char} (hinner : ¬ tokenOpen <:+: inner)
    (hsplit : token inner = u ++ v) (hu : u ≠ []) (hv : v ≠ []) (rest : List Char) :
    ¬ tokenOpen <+: v ++ rest := by
  intro hfront
  cases u with
  | nil => exact hu rfl
  | cons c u =>
    have htail : '\x7b' :: inner ++ [tokenClose] = u ++ v := (List.cons.inj hsplit).2
    obtain ⟨t, ht⟩ := hfront
    cases v with
    | nil => exact hv rfl
    | cons d v =>
      have hd : '$' = d := (List.cons.inj ht).1
      cases v with
      | nil =>
        -- the token ends with a brace
        have hlast := (List.append_inj' htail rfl).2
        rw [← hd] at hlast
        exact absurd hlast (by decide)
      | cons e v =>
        have he : '\x7b' = e := (List.cons.inj (List.cons.inj ht).2).1
        subst hd he
        exact hinner (open_infix_inner ⟨u, v, by rw [htail]; simp [tokenOpen]⟩)

theorem exists_innermost {text a b : List Char} (h : TokenAt text a inner b) :
    ∃ x y, TokenAt text (a ++ x) y b ∧ ¬ tokenOpen <:+: y ∧
      x.length + y.length = inner.length := by
  induction hn : inner.length using Nat.strongRecOn generalizing a inner with
  | ind n ih =>
    by_cases hinner : tokenOpen <:+: inner
    · obtain ⟨p, q, rfl⟩ := hinner
      have hclosed : tokenClose ∉ q := fun hm => h.closed (List.mem_append_right _ hm)
      have hat : TokenAt text (a ++ (tokenOpen ++ p)) q b := by
        refine ⟨?_, hclosed⟩
        rw [h.split]
        simp
      have hlen : q.length < n := by
        rw [← hn]
        simp only [List.length_append, tokenOpen, List.length_cons, List.length_nil]
        omega
      obtain ⟨x, y, hxy, hy, hsum⟩ := ih q.length hlen hat rfl
      refine ⟨tokenOpen ++ p ++ x, y, ?_, hy, ?_⟩
      · rw [← List.append_assoc]
        exact hxy
      · rw [← hn]
        simp only [List.length_append]
        omega
    · exact ⟨[], inner, by rw [List.append_nil]; exact h, hinner, by simp [hn]⟩

end

/-! ## Marks -/

/-- A character, with its place in the template if it is one of the template's. -/
abbrev Mark := Char × Option Nat

/-- The characters of a text, whose first one has place `n`. -/
def markFrom (n : Nat) (text : List Char) : List Mark :=
  (text.zipIdx n).map fun p => (p.1, some p.2)

/-- A character of a value. -/
def unmarked (c : Char) : Mark := (c, none)

theorem markFrom_append (n : Nat) (x y : List Char) :
    markFrom n (x ++ y) = markFrom n x ++ markFrom (n + x.length) y := by
  unfold markFrom
  rw [List.zipIdx_append, List.map_append]

@[simp] theorem markFrom_chars (n : Nat) (text : List Char) :
    (markFrom n text).map Prod.fst = text := by
  unfold markFrom
  rw [List.map_map]
  exact List.zipIdx_map_fst n text

@[simp] theorem markFrom_length (n : Nat) (text : List Char) :
    (markFrom n text).length = text.length := by
  unfold markFrom
  rw [List.length_map, List.length_zipIdx]

theorem markFrom_places (n : Nat) (text : List Char) :
    (markFrom n text).map Prod.snd = (List.range' n text.length).map some := by
  unfold markFrom
  rw [List.map_map, ← List.zipIdx_map_snd n text, List.map_map]
  rfl

/-- The places of a text's characters. -/
theorem place_mem_markFrom {n j : Nat} {text : List Char} :
    some j ∈ (markFrom n text).map Prod.snd ↔ n ≤ j ∧ j < n + text.length := by
  rw [markFrom_places, List.mem_map]
  constructor
  · rintro ⟨i, hi, heq⟩
    cases heq
    rw [List.mem_range'_1] at hi
    exact hi
  · intro hj
    exact ⟨j, List.mem_range'_1.mpr hj, rfl⟩

section Resolve
variable (str : Json → String) (target : String) (params : Dict)

/-- The text with its characters marked, resolved. -/
def resolveMarked (text : List Char) : Except String (List Mark) :=
  resolveText Prod.fst unmarked str target params (markFrom 0 text)

/-- **A token of the template is left**: every one of its characters was copied. -/
def LeftIn (out : List Mark) (text : List Char) : Prop :=
  ∃ a inner b, TokenAt text a inner b ∧
    ∀ j, a.length ≤ j → j < a.length + (token inner).length → some j ∈ out.map Prod.snd

/-! ## Marks change nothing -/

theorem withTarget_erase (text : List Mark) :
    (withTarget Prod.fst unmarked target text).map Prod.fst =
      withTarget id id target (text.map Prod.fst) := by
  unfold withTarget replaceAll expand
  rw [← pieces_map, List.flatMap_map, List.map_flatMap]
  congr 1
  funext p
  cases p with
  | lit a => rfl
  | hit g =>
    simp only [Piece.map, List.map_map, List.map_id]
    exact List.map_id _

theorem fillParams_erase (ps : List (Piece Mark (List Char))) :
    (fillParams unmarked str params ps).map (List.map Prod.fst) =
      fillParams id str params (ps.map (Piece.map Prod.fst id)) := by
  induction ps with
  | nil => rfl
  | cons p ps ih =>
    cases p with
    | lit a =>
      simp only [List.map_cons, Piece.map, fillParams, ← ih]
      cases fillParams unmarked str params ps <;> rfl
    | hit name =>
      simp only [List.map_cons, Piece.map, fillParams, ← ih, id_eq]
      cases lookupParam str params name with
      | error e => rfl
      | ok found =>
        cases fillParams unmarked str params ps with
        | error e => rfl
        | ok filled =>
          have hvalue : (found.map unmarked).map Prod.fst = found.map id := by
            rw [List.map_map]
            rfl
          change Except.ok ((found.map unmarked ++ filled).map Prod.fst) =
            Except.ok (found.map id ++ filled.map Prod.fst)
          rw [List.map_append, hvalue]

/-- The marked text shows what the run's text says. -/
theorem resolveText_erase (text : List Char) :
    (resolveMarked str target params text).map (List.map Prod.fst) =
      resolveText id id str target params text := by
  unfold resolveMarked resolveText
  rw [fillParams_erase, pieces_map, withTarget_erase, markFrom_chars]

/-! ## The fate of a token -/

variable {out : List Mark}

theorem fillParams_append_ok {value : Char → Mark} {ps qs : List (Piece Mark (List Char))}
    (h : fillParams value str params (ps ++ qs) = .ok out) :
    ∃ xs ys, fillParams value str params ps = .ok xs ∧
      fillParams value str params qs = .ok ys ∧ out = xs ++ ys := by
  induction ps generalizing out with
  | nil => exact ⟨[], out, rfl, h, rfl⟩
  | cons p ps ih =>
    cases p with
    | lit a =>
      obtain ⟨filled, hfilled, hout⟩ := bind_ok h
      cases hout
      obtain ⟨xs, ys, hxs, hys, rfl⟩ := ih hfilled
      refine ⟨a :: xs, ys, ?_, hys, rfl⟩
      simp only [fillParams, hxs]
      rfl
    | hit name =>
      obtain ⟨found, hfound, h⟩ := bind_ok h
      obtain ⟨filled, hfilled, hout⟩ := bind_ok h
      cases hout
      obtain ⟨xs, ys, hxs, hys, rfl⟩ := ih hfilled
      refine ⟨found.map value ++ xs, ys, ?_, hys, by rw [List.append_assoc]⟩
      simp only [fillParams, hfound, hxs]
      rfl

theorem fillParams_lits {α : Type} (value : Char → α) (x : List α) :
    fillParams value str params (x.map .lit) = .ok x := by
  induction x with
  | nil => rfl
  | cons a x ih =>
    simp only [List.map_cons, fillParams, ih]
    rfl

theorem place_of_fillParams {ps : List (Piece Mark (List Char))}
    (h : fillParams unmarked str params ps = .ok out) {j : Nat} (hj : some j ∈ out.map Prod.snd) :
    ∃ c, Piece.lit (c, some j) ∈ ps := by
  induction ps generalizing out with
  | nil =>
    cases h
    cases hj
  | cons p ps ih =>
    cases p with
    | lit a =>
      obtain ⟨filled, hfilled, hout⟩ := bind_ok h
      cases hout
      rcases List.mem_cons.mp hj with heq | hj
      · exact ⟨a.1, by rw [heq]; exact List.mem_cons_self⟩
      · obtain ⟨c, hc⟩ := ih hfilled hj
        exact ⟨c, List.mem_cons_of_mem _ hc⟩
    | hit name =>
      obtain ⟨found, -, h⟩ := bind_ok h
      obtain ⟨filled, hfilled, hout⟩ := bind_ok h
      cases hout
      rw [List.map_append, List.mem_append] at hj
      rcases hj with hj | hj
      · rw [List.map_map, List.mem_map] at hj
        obtain ⟨c, -, hc⟩ := hj
        cases hc
      · obtain ⟨c, hc⟩ := ih hfilled hj
        exact ⟨c, List.mem_cons_of_mem _ hc⟩

theorem place_of_expand {ps : List (Piece Mark Unit)} {j : Nat}
    (hj : some j ∈ (expand (fun _ => target.toList.map unmarked) ps).map Prod.snd) :
    ∃ c, Piece.lit (c, some j) ∈ ps := by
  obtain ⟨x, hx, hplace⟩ := List.mem_map.mp hj
  rcases mem_expand hx with hlit | ⟨g, hvalue⟩
  · exact ⟨x.1, by rw [← hplace]; exact hlit⟩
  · obtain ⟨c, -, rfl⟩ := List.mem_map.mp hvalue
    cases hplace

variable {str target params} {text a inner b : List Char}

/-- The marked text around a token. -/
theorem TokenAt.marks (h : TokenAt text a inner b) : markFrom 0 text =
    markFrom 0 a ++ (markFrom a.length (token inner) ++
      markFrom (a.length + (token inner).length) b) := by
  have hsplit : text = a ++ (token inner ++ b) := h.split
  rw [hsplit, markFrom_append, markFrom_append, Nat.zero_add]

/-- Where a pattern misses a token with no token in it, it keeps the token. -/
theorem pieces_token {γ : Type} {pattern : Pattern γ} (hinner : ¬ tokenOpen <:+: inner)
    (hopen : ∀ t, ¬ tokenOpen <+: t → pattern t = none)
    (hmiss : ∀ rest, pattern (token inner ++ rest) = none) (n : Nat) (s : List Mark) :
    pieces Prod.fst pattern 0 (markFrom n (token inner) ++ s) =
      (markFrom n (token inner)).map .lit ++ pieces Prod.fst pattern 0 s := by
  apply pieces_lits
  intro u v huv hv
  have hchars : token inner = u.map Prod.fst ++ v.map Prod.fst := by
    rw [← List.map_append, ← huv, markFrom_chars]
  rw [List.map_append]
  by_cases hu : u = []
  · subst hu
    rw [List.map_nil, List.nil_append] at hchars
    rw [← hchars]
    exact hmiss _
  · apply hopen
    exact not_open_inside hinner hchars (fun hnil => hu (List.map_eq_nil_iff.mp hnil))
      (fun hnil => hv (List.map_eq_nil_iff.mp hnil)) _

theorem head_token (inner : List Char) (n : Nat) (s : List Mark) :
    ((markFrom n (token inner) ++ s).head?.map Prod.fst) = some '$' := rfl

/-- What of a text with the target in it stands around a token that was kept. -/
theorem withTarget_kept (target : String) (h : TokenAt text a inner b)
    (hinner : ¬ tokenOpen <:+: inner) (hne : inner ≠ targetPath) : ∃ x y,
    withTarget Prod.fst unmarked target (markFrom 0 text) =
        x ++ (markFrom a.length (token inner) ++ y) ∧
      (∀ j, some j ∈ x.map Prod.snd → j < a.length) ∧
      ∀ j, some j ∈ y.map Prod.snd → a.length + (token inner).length ≤ j := by
  obtain ⟨ps, hps, hmem⟩ := pieces_sync Prod.fst runTargetPattern runTargetPattern_headed
    (Nat.zero_le (markFrom 0 a).length)
    (head_token inner a.length (markFrom (a.length + (token inner).length) b))
  refine ⟨expand (fun _ => target.toList.map unmarked) ps,
    withTarget Prod.fst unmarked target (markFrom (a.length + (token inner).length) b), ?_, ?_, ?_⟩
  · unfold withTarget replaceAll
    rw [h.marks, hps, pieces_token hinner (fun t => runTargetPattern_open)
      (fun rest => runTargetPattern_ne h.closed hne rest), expand_append, expand_append, expand_lits]
  · intro j hj
    obtain ⟨c, hc⟩ := place_of_expand target hj
    have hplace := List.mem_map_of_mem (f := Prod.snd) (hmem _ hc)
    have hrange := place_mem_markFrom.mp hplace
    omega
  · intro j hj
    obtain ⟨c, hc⟩ := place_of_expand target hj
    have hplace := List.mem_map_of_mem (f := Prod.snd) (mem_of_lit_mem _ _ hc)
    exact (place_mem_markFrom.mp hplace).1

/-- The target's token is gone with its first character. -/
theorem withTarget_replaced (h : TokenAt text a targetPath b) :
    some a.length ∉ (withTarget Prod.fst unmarked target (markFrom 0 text)).map Prod.snd := by
  obtain ⟨ps, hps, hmem⟩ := pieces_sync Prod.fst runTargetPattern runTargetPattern_headed
    (Nat.zero_le (markFrom 0 a).length)
    (head_token targetPath a.length (markFrom (a.length + (token targetPath).length) b))
  have hhit : pieces Prod.fst runTargetPattern 0 (markFrom a.length (token targetPath) ++
      markFrom (a.length + (token targetPath).length) b) =
      .hit () :: pieces Prod.fst runTargetPattern 0
        (markFrom (a.length + (token targetPath).length) b) := by
    apply pieces_hit
    · exact fun hnil => nomatch hnil
    · rw [List.map_append, markFrom_chars, markFrom_length]
      exact runTargetPattern_token _
  intro hj
  unfold withTarget replaceAll at hj
  rw [h.marks, hps, hhit] at hj
  obtain ⟨c, hc⟩ := place_of_expand target hj
  rcases List.mem_append.mp hc with hc | hc
  · have hplace := List.mem_map_of_mem (f := Prod.snd) (hmem _ hc)
    have hrange := place_mem_markFrom.mp hplace
    omega
  · rcases List.mem_cons.mp hc with heq | hc
    · cases heq
    · have hplace := List.mem_map_of_mem (f := Prod.snd) (mem_of_lit_mem _ _ hc)
      have hrange := (place_mem_markFrom.mp hplace).1
      simp only [token, List.length_append, List.length_singleton] at hrange
      omega

theorem exact_replaced (h : TokenAt text a inner b) (hinner : ¬ tokenOpen <:+: inner)
    (hexact : Exact inner) (hout : resolveMarked str target params text = .ok out) :
    some a.length ∉ out.map Prod.snd := by
  intro hj
  obtain ⟨c, hc⟩ := place_of_fillParams str params hout hj
  by_cases htarget : inner = targetPath
  · subst htarget
    have hplace := List.mem_map_of_mem (f := Prod.snd) (mem_of_lit_mem _ _ hc)
    exact withTarget_replaced h hplace
  · obtain ⟨name, hname, rfl⟩ := hexact.resolve_left htarget
    obtain ⟨x, y, hkept, hx, hy⟩ := withTarget_kept target h hinner htarget
    obtain ⟨ps, hps, hmem⟩ := pieces_sync Prod.fst runParamsPattern runParamsPattern_headed
      (Nat.zero_le x.length) (head_token (paramsPath ++ name) a.length y)
    have hhit : pieces Prod.fst runParamsPattern 0
        (markFrom a.length (token (paramsPath ++ name)) ++ y) =
        .hit name :: pieces Prod.fst runParamsPattern 0 y := by
      apply pieces_hit
      · exact fun hnil => nomatch hnil
      · rw [List.map_append, markFrom_chars, markFrom_length]
        exact runParamsPattern_token hname _
    rw [hkept, hps, hhit] at hc
    rcases List.mem_append.mp hc with hc | hc
    · have hplace := hx _ (List.mem_map_of_mem (f := Prod.snd) (hmem _ hc))
      omega
    · rcases List.mem_cons.mp hc with heq | hc
      · cases heq
      · have hplace := hy _ (List.mem_map_of_mem (f := Prod.snd) (mem_of_lit_mem _ _ hc))
        simp only [token, List.length_append, List.length_singleton] at hplace
        omega

theorem inexact_copied (h : TokenAt text a inner b) (hinner : ¬ tokenOpen <:+: inner)
    (hexact : ¬ Exact inner) (hout : resolveMarked str target params text = .ok out) (j : Nat)
    (hle : a.length ≤ j) (hlt : j < a.length + (token inner).length) :
    some j ∈ out.map Prod.snd := by
  unfold Exact at hexact
  rw [not_or] at hexact
  obtain ⟨x, y, hkept, -, -⟩ := withTarget_kept target h hinner hexact.1
  obtain ⟨ps, hps, -⟩ := pieces_sync Prod.fst runParamsPattern runParamsPattern_headed
    (Nat.zero_le x.length) (head_token inner a.length y)
  unfold resolveMarked resolveText at hout
  rw [hkept, hps, pieces_token hinner (fun t => runParamsPattern_open)
    (fun rest => runParamsPattern_ne h.closed hexact.2 rest)] at hout
  obtain ⟨xs, ys, -, hys, rfl⟩ := fillParams_append_ok str params hout
  obtain ⟨us, vs, hus, -, rfl⟩ := fillParams_append_ok str params hys
  rw [fillParams_lits] at hus
  cases hus
  rw [List.map_append, List.map_append]
  exact List.mem_append_right _ (List.mem_append_left _ (place_mem_markFrom.mpr ⟨hle, hlt⟩))

/-- **A text leaves a token behind exactly when one is not spelled right.** -/
theorem leftIn_iff (hout : resolveMarked str target params text = .ok out) :
    LeftIn out text ↔ ¬ Spelled text := by
  constructor
  · rintro ⟨a, inner, b, hat, hcopied⟩ hspelled
    obtain ⟨x, y, hxy, hy, hlen⟩ := exists_innermost hat
    refine exact_replaced hxy hy (hspelled _ _ _ hxy hy) hout ?_
    apply hcopied
    · rw [List.length_append]
      omega
    · simp only [token, List.length_append, tokenOpen, List.length_cons, List.length_nil]
      omega
  · intro hspelled
    unfold Spelled at hspelled
    push Not at hspelled
    obtain ⟨a, inner, b, hat, hinner, hexact⟩ := hspelled
    exact ⟨a, inner, b, hat, inexact_copied hat hinner hexact hout⟩

end Resolve

end Meho.Runbook
