import Mathlib.Data.List.Basic

/- Leftmost matches that do not overlap, as `re.finditer` and `re.sub` find them.

A pattern is asked at one place of a text: how many characters it takes there,
and what it captures. `pieces` goes through a text from the left and cuts it into
matches and the characters between them; behind a match it goes on where the
match ends. Finding and replacing are what one does with the pieces.

The text may be a list of anything that shows a character. So a text can carry a
mark on each character, and the pieces of the marked text are those of the bare
one (`pieces_map`).

Where a pattern only has some character at its head, the scan begins anew at every
such character: what stands before it does not matter (`pieces_sync`). Behind that
point a match is cut out (`pieces_hit`), and characters where nothing matches are
kept (`pieces_lits`). -/
namespace Meho.Lib

/-- What a pattern takes of the front of a text. -/
abbrev Pattern (γ : Type) := List Char → Option (Nat × γ)

/-- A character between matches, or a match. -/
inductive Piece (α γ : Type) where
  | lit (a : α)
  | hit (g : γ)
  deriving DecidableEq, Repr

section Pieces
variable {α β γ δ : Type} (char : α → Char) (pattern : Pattern γ)

/-- The pieces of a text whose first `skip` characters belong to the last match. -/
def pieces : Nat → List α → List (Piece α γ)
  | _, [] => []
  | skip + 1, _ :: s => pieces skip s
  | 0, a :: s =>
    match pattern ((a :: s).map char) with
    | some (n, g) => .hit g :: pieces (n - 1) s
    | none => .lit a :: pieces 0 s

/-- What the matches capture. -/
def findAll (s : List α) : List γ :=
  (pieces char pattern 0 s).filterMap fun
    | .lit _ => none
    | .hit g => some g

/-- The text of pieces whose matches are replaced. -/
def expand (value : γ → List α) (ps : List (Piece α γ)) : List α :=
  ps.flatMap fun
    | .lit a => [a]
    | .hit g => value g

/-- The text with every match replaced. -/
def replaceAll (value : γ → List α) (s : List α) : List α :=
  expand value (pieces char pattern 0 s)

def Piece.map (f : α → β) (g : γ → δ) : Piece α γ → Piece β δ
  | .lit a => .lit (f a)
  | .hit c => .hit (g c)

/-- The pieces of a text are those of the characters it shows. -/
theorem pieces_map (skip : Nat) (s : List α) :
    (pieces char pattern skip s).map (Piece.map char id) = pieces id pattern skip (s.map char) := by
  induction s generalizing skip with
  | nil => cases skip <;> rfl
  | cons a s ih =>
    cases skip with
    | succ skip => exact ih skip
    | zero =>
      simp only [pieces, List.map_cons, List.map_id, id_eq]
      cases pattern (char a :: s.map char) with
      | none =>
        rw [List.map_cons, ih]
        rfl
      | some found =>
        rw [List.map_cons, ih]
        rfl

@[simp] theorem expand_append (value : γ → List α) (ps qs : List (Piece α γ)) :
    expand value (ps ++ qs) = expand value ps ++ expand value qs := List.flatMap_append

@[simp] theorem expand_lits (value : γ → List α) (x : List α) :
    expand value (x.map .lit) = x := by
  induction x with
  | nil => rfl
  | cons a x ih => exact congrArg (a :: ·) ih

/-- What is in an expanded text was between the matches, or is of a value. -/
theorem mem_expand {value : γ → List α} {ps : List (Piece α γ)} {a : α}
    (h : a ∈ expand value ps) : Piece.lit a ∈ ps ∨ ∃ g, a ∈ value g := by
  obtain ⟨p, hp, ha⟩ := List.mem_flatMap.mp h
  cases p with
  | lit b =>
    obtain rfl := List.mem_singleton.mp ha
    exact .inl hp
  | hit g => exact .inr ⟨g, ha⟩

/-! ## Where a scan stands -/

variable {s : List α}

theorem mem_of_lit_mem {skip : Nat} {a : α} (h : Piece.lit a ∈ pieces char pattern skip s) :
    a ∈ s := by
  induction s generalizing skip with
  | nil => cases skip <;> cases h
  | cons b s ih =>
    cases skip with
    | succ skip => exact List.mem_cons_of_mem b (ih h)
    | zero =>
      unfold pieces at h
      split at h
      · rcases List.mem_cons.mp h with heq | h
        · cases heq
        · exact List.mem_cons_of_mem b (ih h)
      · rcases List.mem_cons.mp h with heq | h
        · cases heq
          exact List.mem_cons_self
        · exact List.mem_cons_of_mem b (ih h)

/-- The rest of a match is passed over. -/
theorem pieces_skip (x s : List α) : pieces char pattern x.length (x ++ s) =
    pieces char pattern 0 s := by
  induction x with
  | nil => rfl
  | cons a x ih => exact ih

variable {x : List α}

theorem pieces_hit {g : γ} (hx : x ≠ []) (h : pattern ((x ++ s).map char) = some (x.length, g)) :
    pieces char pattern 0 (x ++ s) = .hit g :: pieces char pattern 0 s := by
  cases x with
  | nil => exact absurd rfl hx
  | cons a x =>
    have hstep : pieces char pattern 0 (a :: (x ++ s)) =
        .hit g :: pieces char pattern ((a :: x).length - 1) (x ++ s) := by
      rw [List.cons_append] at h
      simp only [pieces, h]
    rw [List.cons_append, hstep, List.length_cons, Nat.add_sub_cancel, pieces_skip]

theorem pieces_lits (h : ∀ u v, x = u ++ v → v ≠ [] → pattern ((v ++ s).map char) = none) :
    pieces char pattern 0 (x ++ s) = x.map .lit ++ pieces char pattern 0 s := by
  induction x with
  | nil => rfl
  | cons a x ih =>
    have hhead := h [] (a :: x) rfl nofun
    have hrest := ih fun u v huv hv => h (a :: u) v (by rw [huv]; rfl) hv
    rw [List.cons_append] at hhead ⊢
    simp only [pieces, hhead, hrest]
    rfl

/-- A match has the character only as its first one. -/
def Headed (c : Char) : Prop :=
  ∀ t n g, pattern t = some (n, g) → 0 < n ∧ c ∉ (t.take n).tail

/-- A scan is at no match when it comes to a character that only heads matches. -/
theorem pieces_sync {c : Char} (hpattern : Headed pattern c) {skip : Nat} (hskip : skip ≤ x.length)
    (hs : (s.head?.map char) = some c) :
    ∃ ps, pieces char pattern skip (x ++ s) = ps ++ pieces char pattern 0 s ∧
      ∀ a, Piece.lit a ∈ ps → a ∈ x := by
  induction x generalizing skip with
  | nil =>
    obtain rfl : skip = 0 := Nat.le_zero.mp hskip
    exact ⟨[], rfl, nofun⟩
  | cons a x ih =>
    cases skip with
    | succ skip =>
      obtain ⟨ps, hps, hmem⟩ := ih (Nat.le_of_succ_le_succ hskip)
      exact ⟨ps, hps, fun b hb => List.mem_cons_of_mem a (hmem b hb)⟩
    | zero =>
      cases hmatch : pattern ((a :: (x ++ s)).map char) with
      | none =>
        obtain ⟨ps, hps, hmem⟩ := ih (Nat.zero_le _)
        refine ⟨.lit a :: ps, ?_, ?_⟩
        · rw [List.cons_append]
          simp only [pieces, hmatch, hps, List.cons_append]
        · intro b hb
          rcases List.mem_cons.mp hb with heq | hb
          · cases heq
            exact List.mem_cons_self
          · exact List.mem_cons_of_mem a (hmem b hb)
      | some found =>
        obtain ⟨n, g⟩ := found
        obtain ⟨hpos, hheaded⟩ := hpattern _ _ _ hmatch
        -- a longer match would have the character in its middle
        have hshort : n - 1 ≤ x.length := by
          by_contra hlong
          apply hheaded
          obtain ⟨m, rfl⟩ : ∃ m, n = m + 1 := ⟨n - 1, by omega⟩
          rw [List.map_cons, List.take_succ_cons, List.tail_cons, List.map_append]
          cases s with
          | nil => cases hs
          | cons b s =>
            have hb : char b = c := Option.some.inj hs
            rw [List.map_cons, hb, List.take_append, List.length_map]
            obtain ⟨k, hk⟩ : ∃ k, m - x.length = k + 1 := ⟨m - x.length - 1, by omega⟩
            rw [hk, List.take_succ_cons]
            exact List.mem_append_right _ List.mem_cons_self
        obtain ⟨ps, hps, hmem⟩ := ih hshort
        refine ⟨.hit g :: ps, ?_, ?_⟩
        · rw [List.cons_append]
          simp only [pieces, hmatch, hps, List.cons_append]
        · intro b hb
          rcases List.mem_cons.mp hb with heq | hb
          · cases heq
          · exact List.mem_cons_of_mem a (hmem b hb)

/-! ## Letters outside the matches -/

/-- How many letters of a text stand outside the matches. -/
def outside (s : List α) : Nat := (replaceAll char pattern (fun _ => []) s).length

theorem outside_hit {g : γ} (hx : x ≠ []) (h : pattern ((x ++ s).map char) = some (x.length, g)) :
    outside char pattern (x ++ s) = outside char pattern s := by
  rw [outside, replaceAll, pieces_hit char pattern hx h]
  rfl

theorem outside_lits (h : ∀ u v, x = u ++ v → v ≠ [] → pattern ((v ++ s).map char) = none) :
    outside char pattern (x ++ s) = x.length + outside char pattern s := by
  rw [outside, replaceAll, pieces_lits char pattern h, expand_append, expand_lits,
    List.length_append]
  rfl

/-- Where matches only start with some character and have it nowhere else, a text in front adds
at most its letters, and less when a match starts with it. -/
theorem outside_append {c : Char} (hpattern : Headed pattern c)
    (hhead : ∀ t, t.head? ≠ some c → pattern t = none)
    (hfits : ∀ t n g, pattern t = some (n, g) → n ≤ t.length) (s x : List α) :
    outside char pattern (x ++ s) ≤ x.length + outside char pattern s ∧
      (x ≠ [] → (pattern ((x ++ s).map char)).isSome = true →
        outside char pattern (x ++ s) < x.length + outside char pattern s) := by
  induction hlen : x.length using Nat.strongRecOn generalizing x with
  | ind len ih =>
    cases x with
    | nil => exact ⟨by simp, fun hne => absurd rfl hne⟩
    | cons a x =>
      cases hmatch : pattern ((a :: x ++ s).map char) with
      | none =>
        have hstep : outside char pattern (a :: x ++ s) = 1 + outside char pattern (x ++ s) :=
          outside_lits char pattern (x := [a]) fun u v huv hv => by
            cases u with
            | nil =>
              rw [List.nil_append] at huv
              rw [← huv]
              exact hmatch
            | cons b u =>
              have hnil := (List.append_eq_nil_iff.mp (List.cons.inj huv).2.symm).2
              exact absurd hnil hv
        have hrest := (ih x.length (by simp [← hlen]) x rfl).1
        rw [List.length_cons] at hlen
        refine ⟨by omega, fun _ hsome => ?_⟩
        cases hsome
      | some found =>
        obtain ⟨n, g⟩ := found
        obtain ⟨hpos, hheaded⟩ := hpattern _ _ _ hmatch
        have hn := hfits _ _ _ hmatch
        rw [List.length_map] at hn
        suffices hlt : outside char pattern (a :: x ++ s) < len + outside char pattern s from
          ⟨Nat.le_of_lt hlt, fun _ _ => hlt⟩
        rcases Nat.le_total n (a :: x).length with hshort | hlong
        · -- the match ends within the text in front
          have hsplit : a :: x ++ s = (a :: x).take n ++ ((a :: x).drop n ++ s) := by
            rw [← List.append_assoc, List.take_append_drop]
          have hlength : ((a :: x).take n).length = n := List.length_take_of_le hshort
          have hne : (a :: x).take n ≠ [] := by
            intro hnil
            rw [hnil] at hlength
            simp only [List.length_nil] at hlength
            omega
          have hhit := outside_hit char pattern hne (by rw [← hsplit, hlength]; exact hmatch)
          have hdrop : ((a :: x).drop n).length < len := by
            rw [List.length_drop, hlen]
            omega
          have hrest := (ih _ hdrop _ rfl).1
          rw [hsplit, hhit]
          omega
        · -- it ends behind it: there it had no other match to be
          have htake : a :: x ++ s = (a :: x ++ s.take (n - len)) ++ s.drop (n - len) := by
            rw [List.append_assoc, List.take_append_drop]
          have hlength : (a :: x ++ s.take (n - len)).length = n := by
            rw [List.length_append, hlen, List.length_take]
            rw [List.length_append, hlen] at hn
            omega
          have hhit := outside_hit char pattern (x := a :: x ++ s.take (n - len))
            (s := s.drop (n - len)) nofun (by rw [← htake, hlength]; exact hmatch)
          have hlits := outside_lits char pattern (x := s.take (n - len)) (s := s.drop (n - len))
            fun u v huv hv => by
              refine hhead _ fun hc => hheaded ?_
              cases v with
              | nil => exact absurd rfl hv
              | cons b v =>
                have hb : char b = c := Option.some.inj hc
                have hmem : b ∈ x ++ s.take (n - len) := by
                  rw [huv]
                  simp
                have htaken : ((a :: x ++ s).map char).take n =
                    (a :: x ++ s.take (n - len)).map char := by
                  rw [← List.map_take, htake, List.take_left' hlength]
                rw [htaken]
                exact List.mem_map.mpr ⟨b, hmem, hb⟩
          rw [List.take_append_drop] at hlits
          rw [htake, hhit, hlits]
          have hpositive : 0 < len := by rw [← hlen]; exact Nat.succ_pos _
          omega

end Pieces
end Meho.Lib
