import Mathlib.Data.List.Infix
import Meho.Redaction.ParamNames

/- The name rule for a name whose case is lost (broadcast/events.py).

An HTML parser lowercases the names it reads, so the capitals the exact rule
splits at are gone. The loose rule asks whether some placement of the lost
boundaries makes the name secret.

What is proved: `isSecretParamName_lowercased`, the loose rule calls secret
the lower case of every name the exact rule calls secret. Its words are the
exact rule's words glued together (`Glued`), and a word of the exact rule
stays where the loose rule looks for it. -/
namespace Meho.Redaction

/-! ## The loose rule -/

/-- `_SECRET_NAME_TOKEN_PAIRS_LOOSE`: a final-only pair counts anywhere here. -/
def secretNameTokenPairsLoose : List (String × String) :=
  secretNameTokenPairs ++ secretNameFinalTokenPairs

def secretNamePairsJoined : List String :=
  secretNameTokenPairsLoose.map fun pair => pair.1 ++ pair.2

/-- `word in token`. -/
def hasWord (token word : String) : Bool := decide (word.toList <:+: token.toList)

def endsIn (token word : String) : Bool := decide (word.toList <:+ token.toList)

def startsWith (token word : String) : Bool := decide (word.toList <+: token.toList)

def isSecretParamNameLowercased (name : String) : Bool :=
  let tokens := nameTokens (lower (flatName name))
  match tokens.getLast? with
  | none => false
  | some last =>
    (tokens.any fun token => secretNameTokensAnywhere.any (hasWord token)) ||
      secretNameTokensFinal.any (endsIn last) ||
      (tokens.any fun token => secretNamePairsJoined.any (hasWord token)) ||
      (tokens.zip tokens.tail).any fun adjacent =>
        secretNameTokenPairsLoose.any fun pair =>
          endsIn adjacent.1 pair.1 && startsWith adjacent.2 pair.2

/-! ## Words glued together -/

/-- `coarse` is `fine` with some neighbours written as one word. -/
inductive Glued {α : Type} : List (List α) → List (List α) → Prop where
  | nil : Glued [] []
  | cut {p : List α} {ps qs : List (List α)} : Glued ps qs → Glued (p :: ps) (p :: qs)
  | glue {p q : List α} {ps qs : List (List α)} :
    Glued ps (q :: qs) → Glued (p :: ps) ((p ++ q) :: qs)

section
variable {α : Type} {p q a b : List α} {ps qs fine coarse : List (List α)}

theorem Glued.refl : ∀ ps : List (List α), Glued ps ps
  | [] => .nil
  | _ :: ps => .cut (Glued.refl ps)

theorem Glued.modifyHead (h : Glued fine coarse) (x : α) :
    Glued (fine.modifyHead (x :: ·)) (coarse.modifyHead (x :: ·)) := by
  cases h with
  | nil => exact .nil
  | cut h => exact .cut h
  | glue h => exact .glue h

theorem Glued.flatMap {β : Type} (f : α → List β) (h : Glued fine coarse) :
    Glued (fine.map (·.flatMap f)) (coarse.map (·.flatMap f)) := by
  induction h with
  | nil => exact .nil
  | cut _ ih => exact .cut ih
  | glue _ ih =>
    rw [List.map_cons, List.map_cons, List.flatMap_append]
    exact .glue ih

/-- Empty words are dropped on both sides. -/
theorem Glued.filter [DecidableEq α] (h : Glued fine coarse) :
    Glued (fine.filter (· ≠ [])) (coarse.filter (· ≠ [])) := by
  induction h with
  | nil => exact .nil
  | @cut p _ _ _ ih =>
    by_cases hp : p = []
    · simpa [hp] using ih
    · simpa [hp] using Glued.cut (p := p) ih
  | @glue p q ps qs _ ih =>
    by_cases hp : p = []
    · simpa [hp] using ih
    · by_cases hq : q = []
      · simpa [hp, hq] using Glued.cut (p := p) (by simpa [hq] using ih)
      · simpa [hp, hq] using Glued.glue (p := p) (q := q) (by simpa [hq] using ih)

theorem Glued.head (h : Glued (a :: ps) coarse) : ∃ q qs, coarse = q :: qs ∧ a <+: q := by
  cases h with
  | cut _ => exact ⟨_, _, rfl, List.prefix_rfl⟩
  | glue _ => exact ⟨_, _, rfl, List.prefix_append _ _⟩

/-- A word stands inside one of the glued words. -/
theorem Glued.mem (h : Glued fine coarse) (ha : a ∈ fine) : ∃ q ∈ coarse, a <:+: q := by
  induction h with
  | nil => cases ha
  | cut _ ih =>
    rcases List.mem_cons.mp ha with rfl | ha
    · exact ⟨_, List.mem_cons_self, List.infix_rfl⟩
    · obtain ⟨q, hq, hinfix⟩ := ih ha
      exact ⟨q, List.mem_cons_of_mem _ hq, hinfix⟩
  | @glue p q _ _ _ ih =>
    rcases List.mem_cons.mp ha with rfl | ha
    · exact ⟨_, List.mem_cons_self, (List.prefix_append _ _).isInfix⟩
    · obtain ⟨w, hw, hinfix⟩ := ih ha
      rcases List.mem_cons.mp hw with rfl | hw
      · exact ⟨_, List.mem_cons_self, hinfix.trans (List.suffix_append _ _).isInfix⟩
      · exact ⟨w, List.mem_cons_of_mem _ hw, hinfix⟩

/-- The last word ends the last glued word. -/
theorem Glued.last (h : Glued fine coarse) (ha : fine.getLast? = some a) :
    ∃ q, coarse.getLast? = some q ∧ a <:+ q := by
  induction h with
  | nil => cases ha
  | @cut p ps qs h ih =>
    cases h with
    | nil => exact ⟨p, rfl, by cases ha; exact List.suffix_rfl⟩
    | cut h => simpa using ih (by simpa using ha)
    | glue h => simpa using ih (by simpa using ha)
  | @glue p q ps qs h ih =>
    obtain ⟨w, hw, hsuffix⟩ : ∃ w, (q :: qs).getLast? = some w ∧ a <:+ w := by
      cases h with
      | cut h => exact ih (by simpa using ha)
      | glue h => exact ih (by simpa using ha)
    cases qs with
    | nil =>
      cases hw
      exact ⟨_, rfl, hsuffix.trans (List.suffix_append _ _)⟩
    | cons _ _ => exact ⟨w, by simpa using hw, hsuffix⟩

/-- Two words that follow each other touch: inside one glued word, or across two. -/
theorem Glued.adjacent (h : Glued fine coarse) (hab : (a, b) ∈ fine.zip fine.tail) :
    (∃ q ∈ coarse, a ++ b <:+: q) ∨
      ∃ l r, (l, r) ∈ coarse.zip coarse.tail ∧ a <:+ l ∧ b <+: r := by
  induction h with
  | nil => cases hab
  | @cut p ps qs h ih =>
    cases ps with
    | nil => cases hab
    | cons p' ps =>
      obtain ⟨q, rest, rfl, hhead⟩ := h.head
      rcases List.mem_cons.mp hab with heq | hab
      · cases heq
        exact .inr ⟨_, q, List.mem_cons_self, List.suffix_rfl, hhead⟩
      · rcases ih hab with ⟨w, hw, hinfix⟩ | ⟨l, r, hlr, hl, hr⟩
        · exact .inl ⟨w, List.mem_cons_of_mem _ hw, hinfix⟩
        · exact .inr ⟨l, r, List.mem_cons_of_mem _ hlr, hl, hr⟩
  | @glue p q ps qs h ih =>
    cases ps with
    | nil => cases hab
    | cons p' ps =>
      rcases List.mem_cons.mp hab with heq | hab
      · -- the glued word starts with `p`, and the word glued to it starts with the next one
        cases heq
        obtain ⟨q', qs', heq, hhead⟩ := h.head
        cases heq
        exact .inl ⟨_, List.mem_cons_self,
          ((List.prefix_append_right_inj _).mpr hhead).isInfix⟩
      · rcases ih hab with ⟨w, hw, hinfix⟩ | ⟨l, r, hlr, hl, hr⟩
        · rcases List.mem_cons.mp hw with rfl | hw
          · exact .inl ⟨_, List.mem_cons_self, hinfix.trans (List.suffix_append _ _).isInfix⟩
          · exact .inl ⟨w, List.mem_cons_of_mem _ hw, hinfix⟩
        · cases qs with
          | nil => cases hlr
          | cons q₂ qs =>
            rcases List.mem_cons.mp hlr with heq | hlr
            · cases heq
              exact .inr ⟨_, _, List.mem_cons_self, hl.trans (List.suffix_append _ _), hr⟩
            · exact .inr ⟨l, r, List.mem_cons_of_mem _ hlr, hl, hr⟩
end

/-! ## The words of a name and of its lower case -/

theorem glued_splitCamel : ∀ cs : List Char,
    Glued ((splitCamel cs).splitOn '_') (cs.splitOn '_')
  | [] => .refl _
  | [_] => .refl _
  | a :: b :: rest => by
    have ih := glued_splitCamel (b :: rest)
    rw [splitCamel]
    split
    · -- a boundary: the letter before it is a word of its own
      rename_i hboundary
      have ha : (a == '_') = false := by
        rw [beq_eq_false_iff_ne]
        rintro rfl
        exact absurd hboundary (by simp [isAsciiLowerOrDigit])
      obtain ⟨q, qs, hq⟩ := List.exists_cons_of_ne_nil (List.splitOn_ne_nil '_' (b :: rest))
      rw [List.splitOn_cons_eq_if_modifyHead, List.splitOn_cons_eq_if_modifyHead '_',
        List.splitOn_cons_eq_if_modifyHead a, ha, hq]
      rw [hq] at ih
      exact .glue (p := [a]) ih
    · rw [List.splitOn_cons_eq_if_modifyHead, List.splitOn_cons_eq_if_modifyHead a]
      split
      · exact .cut ih
      · exact ih.modifyHead a

theorem toLower_of_not_upper {c : Char} (h : isAsciiUpper c = false) : c.toLower = c := by
  unfold Char.toLower
  rw [dif_neg]
  simpa [isAsciiUpper, Char.le_def] using h

theorem toLower_of_upper {c : Char} (h : isAsciiUpper c = true) :
    'a' ≤ c.toLower ∧ c.toLower ≤ 'z' := by
  have hupper : c.val ≥ 'A'.val ∧ c.val ≤ 'Z'.val := by
    simpa [isAsciiUpper, Char.le_def] using h
  unfold Char.toLower
  rw [dif_pos hupper]
  simp only [Char.le_def, UInt32.le_iff_toNat_le, UInt32.toNat_add] at hupper ⊢
  simp at hupper ⊢
  omega

/-- A character that is no letter is the lower case of itself only. -/
theorem toLower_eq_iff {c d : Char} (hlower : ¬ ('a' ≤ d ∧ d ≤ 'z'))
    (hupper : isAsciiUpper d = false) : c.toLower = d ↔ c = d := by
  constructor
  · rintro rfl
    cases h : isAsciiUpper c with
    | true => exact absurd (toLower_of_upper h) hlower
    | false => exact (toLower_of_not_upper h).symm
  · rintro rfl
    exact toLower_of_not_upper hupper

theorem lowerChar_other {c : Char} (hkelvin : c ≠ '\u212A') (hdotted : c ≠ '\u0130') :
    lowerChar c = [c.toLower] := by
  rw [lowerChar, if_neg hkelvin, if_neg hdotted]

theorem lowerChar_cases {motive : Char → Prop} (kelvin : motive '\u212A')
    (dotted : motive '\u0130') (other : ∀ c, c ≠ '\u212A' → c ≠ '\u0130' → motive c) (c : Char) :
    motive c := by
  by_cases hk : c = '\u212A'
  · exact hk ▸ kelvin
  · by_cases hd : c = '\u0130'
    · exact hd ▸ dotted
    · exact other c hk hd

theorem separator_mem_lowerChar (c : Char) : '_' ∈ lowerChar c ↔ c = '_' := by
  induction c using lowerChar_cases with
  | kelvin => decide
  | dotted => decide
  | other c hkelvin hdotted =>
    rw [lowerChar_other hkelvin hdotted, List.mem_singleton, eq_comm]
    exact toLower_eq_iff (by decide) (by decide)

theorem lower_lowerChar (c : Char) : lower (lowerChar c) = lowerChar c := by
  induction c using lowerChar_cases with
  | kelvin => decide
  | dotted => decide
  | other c hkelvin hdotted =>
    have hself : c.toLower.toLower = c.toLower := by
      apply toLower_of_not_upper
      cases h : isAsciiUpper c with
      | true =>
        have hz : ¬ c.toLower ≤ 'Z' := fun hle =>
          absurd (Char.le_trans (toLower_of_upper h).1 hle) (by decide)
        simp [isAsciiUpper, hz]
      | false => rw [toLower_of_not_upper h, h]
    have hlower : lower [c.toLower] = lowerChar c.toLower := List.flatMap_singleton ..
    rw [lowerChar_other hkelvin hdotted, hlower,
      lowerChar_other (mt (toLower_eq_iff (by decide) (by decide)).mp hkelvin)
        (mt (toLower_eq_iff (by decide) (by decide)).mp hdotted), hself]

theorem lower_lower (cs : List Char) : lower (lower cs) = lower cs := by
  rw [lower, lower, List.flatMap_assoc]
  exact congrArg (fun f => cs.flatMap f) (funext lower_lowerChar)

/-- The separators stay what they are in lower case. -/
theorem flatName_lower (name : String) :
    flatName (String.ofList (lower name.toList)) = lower (flatName name) := by
  rw [flatName, flatName, lower, lower, String.toList_ofList, List.map_flatMap, List.flatMap_map]
  apply congrArg fun f => name.toList.flatMap f
  funext c
  induction c using lowerChar_cases with
  | kelvin => decide
  | dotted => decide
  | other c hkelvin hdotted =>
    by_cases hsep : c = '-' ∨ c = '.'
    · rcases hsep with rfl | rfl <;> decide
    · have hlower : ¬ (c.toLower = '-' ∨ c.toLower = '.') := by
        rwa [toLower_eq_iff (by decide) (by decide), toLower_eq_iff (by decide) (by decide)]
      rw [if_neg hsep, lowerChar_other hkelvin hdotted, List.map_singleton, if_neg hlower]

theorem splitOn_append {word : List Char} (h : '_' ∉ word) (rest : List Char) :
    (word ++ rest).splitOn '_' = (rest.splitOn '_').modifyHead (word ++ ·) := by
  induction word with
  | nil => exact (congrFun List.modifyHead_id _).symm
  | cons c word ih =>
    have hc : (c == '_') = false := by
      rw [beq_eq_false_iff_ne]
      rintro rfl
      exact h List.mem_cons_self
    rw [List.cons_append, List.splitOn_cons_eq_if_modifyHead, hc,
      ih fun hmem => h (List.mem_cons_of_mem _ hmem)]
    simp [List.modifyHead_modifyHead, Function.comp_def]

theorem splitOn_lower : ∀ cs : List Char, (lower cs).splitOn '_' = (cs.splitOn '_').map lower
  | [] => rfl
  | c :: cs => by
    have hcons : lower (c :: cs) = lowerChar c ++ lower cs := rfl
    rw [hcons, List.splitOn_cons_eq_if_modifyHead c]
    by_cases hc : c = '_'
    · subst hc
      have hsep : lowerChar '_' = ['_'] := by decide
      rw [hsep, List.singleton_append, List.splitOn_cons_eq_if_modifyHead, splitOn_lower cs]
      rfl
    · rw [splitOn_append (mt (separator_mem_lowerChar c).mp hc), splitOn_lower cs,
        if_neg (by simpa using hc)]
      cases cs.splitOn '_' with
      | nil => rfl
      | cons word words => rfl

/-! ## What the exact rule finds -/

theorem glued_nameTokens {fine coarse : List Char}
    (h : Glued (fine.splitOn '_') (coarse.splitOn '_')) :
    Glued ((nameTokens (lower fine)).map String.toList)
      ((nameTokens (lower coarse)).map String.toList) := by
  have htext : String.toList ∘ String.ofList = id := funext fun cs => String.toList_ofList
  rw [nameTokens, nameTokens, splitOn_lower, splitOn_lower, List.map_map, List.map_map, htext,
    List.map_id, List.map_id]
  exact (h.flatMap lowerChar).filter

section
variable {tokens words secrets : List String} {text : String}

/-- A secret word inside one of the glued words is found there. -/
theorem hasWord_found (hsecret : text ∈ secrets)
    (hinside : ∃ q ∈ words.map String.toList, text.toList <:+: q) :
    (words.any fun token => secrets.any (hasWord token)) = true := by
  obtain ⟨_, hq, hinfix⟩ := hinside
  obtain ⟨word, hword, rfl⟩ := List.mem_map.mp hq
  exact List.any_eq_true.mpr
    ⟨word, hword, List.any_eq_true.mpr ⟨text, hsecret, decide_eq_true hinfix⟩⟩

theorem zip_tail_map (tokens : List String) :
    (tokens.map String.toList).zip (tokens.map String.toList).tail =
      (tokens.zip tokens.tail).map fun pair => (pair.1.toList, pair.2.toList) := by
  rw [← List.map_tail, List.zip_map]
  rfl

/-- A secret pair is found, touching inside one glued word or across two. -/
theorem pair_found {pair : String × String}
    (h : Glued (tokens.map String.toList) (words.map String.toList))
    (hpair : pair ∈ tokens.zip tokens.tail) (hsecret : pair ∈ secretNameTokenPairsLoose) :
    (words.any fun token => secretNamePairsJoined.any (hasWord token)) = true ∨
      ((words.zip words.tail).any fun adjacent => secretNameTokenPairsLoose.any fun pair =>
        endsIn adjacent.1 pair.1 && startsWith adjacent.2 pair.2) = true := by
  have hadjacent : (pair.1.toList, pair.2.toList) ∈
      (tokens.map String.toList).zip (tokens.map String.toList).tail := by
    rw [zip_tail_map]
    exact List.mem_map.mpr ⟨pair, hpair, rfl⟩
  rcases h.adjacent hadjacent with hinside | ⟨l, r, hacross, hl, hr⟩
  · left
    have hjoined : ∃ q ∈ words.map String.toList, (pair.1 ++ pair.2).toList <:+: q := by
      simpa using hinside
    exact hasWord_found (List.mem_map.mpr ⟨pair, hsecret, rfl⟩) hjoined
  · right
    rw [zip_tail_map] at hacross
    obtain ⟨adjacent, hmem, heq⟩ := List.mem_map.mp hacross
    cases heq
    exact List.any_eq_true.mpr ⟨adjacent, hmem, List.any_eq_true.mpr ⟨pair, hsecret,
      Bool.and_eq_true_iff.mpr ⟨decide_eq_true hl, decide_eq_true hr⟩⟩⟩
end

theorem last_pair_adjacent (a b : String) : ∀ before : List String,
    (a, b) ∈ (before ++ [a, b]).zip (before ++ [a, b]).tail
  | [] => List.mem_cons_self
  | _ :: before => by
    have ih := last_pair_adjacent a b before
    rw [List.cons_append, List.tail_cons]
    cases htail : before ++ [a, b] with
    | nil => simp at htail
    | cons word rest =>
      rw [htail] at ih
      exact List.mem_cons_of_mem _ ih

/-- Words that the exact rule finds secret are found secret after they are glued together. -/
theorem lowercased_of_glued {name : String} {fine : List Char}
    (h : Glued ((nameTokens fine).map String.toList)
      ((nameTokens (lower (flatName name))).map String.toList))
    (hsecret : tokensAreSecret fine = true) : isSecretParamNameLowercased name = true := by
  unfold tokensAreSecret at hsecret
  unfold isSecretParamNameLowercased
  generalize nameTokens fine = tokens at h hsecret
  generalize nameTokens (lower (flatName name)) = words at h
  cases hlast : tokens.getLast? with
  | none => simp [hlast] at hsecret
  | some last =>
    obtain ⟨_, hq, hsuffix⟩ := h.last (a := last.toList) (by simp [hlast])
    rw [List.getLast?_map] at hq
    obtain ⟨last', hlast', rfl⟩ := Option.map_eq_some_iff.mp hq
    simp only [hlast, hlast', Bool.or_eq_true] at hsecret ⊢
    rcases hsecret with ((hanywhere | hfinal) | hends) | hpair
    · obtain ⟨token, htoken, hcontains⟩ := List.any_eq_true.mp hanywhere
      exact .inl (.inl (.inl (hasWord_found (List.contains_iff_mem.mp hcontains)
        (h.mem (List.mem_map_of_mem htoken)))))
    · exact .inl (.inl (.inr (List.any_eq_true.mpr
        ⟨last, List.contains_iff_mem.mp hfinal, decide_eq_true hsuffix⟩)))
    · split at hends
      · rename_i b a before hreverse
        have htokens : tokens = before.reverse ++ [a, b] := by
          rw [← tokens.reverse_reverse, hreverse]
          simp
        have hmem := htokens ▸ last_pair_adjacent a b before.reverse
        rcases pair_found h hmem (List.mem_append_right _ (List.contains_iff_mem.mp hends))
          with hinside | hacross
        · exact .inl (.inr hinside)
        · exact .inr hacross
      · cases hends
    · obtain ⟨pair, hmem, hcontains⟩ := List.any_eq_true.mp hpair
      rcases pair_found h hmem (List.mem_append_left _ (List.contains_iff_mem.mp hcontains))
        with hinside | hacross
      · exact .inl (.inr hinside)
      · exact .inr hacross

/-- **A name the exact rule calls secret is still called secret once its case is lost.** -/
theorem isSecretParamName_lowercased (name : String) (h : isSecretParamName name = true) :
    isSecretParamNameLowercased (String.ofList (lower name.toList)) = true := by
  have hflat : lower (flatName (String.ofList (lower name.toList))) = lower (flatName name) := by
    rw [flatName_lower, lower_lower]
  rcases Bool.or_eq_true_iff.mp h with hcamel | hwhole
  · apply lowercased_of_glued _ hcamel
    rw [hflat]
    exact glued_nameTokens (glued_splitCamel _)
  · apply lowercased_of_glued _ hwhole
    rw [hflat]
    exact .refl _

theorem isSecretParamName_lowercased_licenseKey :
    isSecretParamNameLowercased (String.ofList (lower "licenseKey".toList)) = true :=
  isSecretParamName_lowercased "licenseKey" (by decide)

end Meho.Redaction
