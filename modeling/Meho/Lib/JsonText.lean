import Mathlib.Data.List.Basic
import Mathlib.Tactic.IntervalCases

/- String literals of JSON text, as a writer that keeps to ASCII prints them.

The characters from space to tilde stand for themselves, except the quote and
the backslash. Seven characters have an escape of two characters; everything
else is written as `u` and four hex digits behind a backslash, a character
beyond the basic plane as a surrogate pair. `readChar` reads one written
character back (`readChar_escapeChar`), so a literal and the text behind it can
be told apart in one way only (`jsonString_append_inj`): texts put together
from literals and fixed words are injective in the literals. -/
namespace Meho.Lib

/-- Four hex digits. -/
def hex4 (n : Nat) : List Char :=
  [Nat.digitChar (n / 4096 % 16), Nat.digitChar (n / 256 % 16), Nat.digitChar (n / 16 % 16),
    Nat.digitChar (n % 16)]

def unicodeEscape (n : Nat) : List Char := '\\' :: 'u' :: hex4 n

/-- The letter of a short escape. -/
def shortEscape (c : Char) : Option Char :=
  if c = '"' then some '"'
  else if c = '\\' then some '\\'
  else if c = '\n' then some 'n'
  else if c = '\r' then some 'r'
  else if c = '\t' then some 't'
  else if c = '\x0c' then some 'f'
  else if c = '\x08' then some 'b'
  else none

/-- One character as it is written. -/
def escapeChar (c : Char) : List Char :=
  match shortEscape c with
  | some letter => ['\\', letter]
  | none =>
    if 0x20 ≤ c.toNat ∧ c.toNat ≤ 0x7e then [c]
    else if c.toNat < 0x10000 then unicodeEscape c.toNat
    else
      unicodeEscape (0xd800 + (c.toNat - 0x10000) / 0x400) ++
        unicodeEscape (0xdc00 + (c.toNat - 0x10000) % 0x400)

/-- A string literal. -/
def jsonString (s : String) : List Char := '"' :: (s.toList.flatMap escapeChar ++ ['"'])

/-! ## Reading back -/

def hexVal (c : Char) : Nat := if c.toNat ≤ 57 then c.toNat - 48 else c.toNat - 87

/-- The number of four hex digits, and what is behind them. -/
def readHex4 : List Char → Option (Nat × List Char)
  | a :: b :: c :: d :: rest =>
    some (hexVal a * 4096 + hexVal b * 256 + hexVal c * 16 + hexVal d, rest)
  | _ => none

def shortValue (letter : Char) : Char :=
  if letter = 'n' then '\n'
  else if letter = 'r' then '\r'
  else if letter = 't' then '\t'
  else if letter = 'f' then '\x0c'
  else if letter = 'b' then '\x08'
  else letter

/-- What follows a `u`: one unit, or the two units of a pair. -/
def readUnicode (text : List Char) : Option (Char × List Char) :=
  match readHex4 text with
  | none => none
  | some (high, rest) =>
    if 0xd800 ≤ high ∧ high < 0xdc00 then
      match readHex4 (rest.drop 2) with
      | none => none
      | some (low, rest) =>
        some (Char.ofNat (0x10000 + (high - 0xd800) * 0x400 + (low - 0xdc00)), rest)
    else some (Char.ofNat high, rest)

/-- One written character, and what is behind it. -/
def readChar : List Char → Option (Char × List Char)
  | '\\' :: 'u' :: rest => readUnicode rest
  | '\\' :: letter :: rest => some (shortValue letter, rest)
  | c :: rest => some (c, rest)
  | [] => none

theorem hexVal_digitChar {n : Nat} (h : n < 16) : hexVal (Nat.digitChar n) = n := by
  interval_cases n <;> rfl

theorem readHex4_hex4 {n : Nat} (h : n < 0x10000) (rest : List Char) :
    readHex4 (hex4 n ++ rest) = some (n, rest) := by
  simp only [hex4, List.cons_append, List.nil_append, readHex4]
  rw [hexVal_digitChar (by omega), hexVal_digitChar (by omega), hexVal_digitChar (by omega),
    hexVal_digitChar (by omega)]
  congr 2
  omega

/-- No character is one of the codes that pairs are made of. -/
theorem toNat_not_surrogate (c : Char) : c.toNat < 0xd800 ∨ 0xdfff < c.toNat := by
  rcases c.valid with hlow | ⟨hhigh, -⟩
  · exact .inl hlow
  · exact .inr hhigh

theorem toNat_lt (c : Char) : c.toNat < 0x110000 := by
  rcases c.valid with hlow | ⟨-, hhigh⟩
  · exact Nat.lt_trans hlow (by decide)
  · exact hhigh

theorem readUnicode_unit {c : Char} (h : c.toNat < 0x10000) (rest : List Char) :
    readUnicode (hex4 c.toNat ++ rest) = some (c, rest) := by
  have hno : ¬(0xd800 ≤ c.toNat ∧ c.toNat < 0xdc00) := by
    have := toNat_not_surrogate c
    omega
  simp only [readUnicode, readHex4_hex4 h, if_neg hno, Char.ofNat_toNat]

theorem readUnicode_pair {c : Char} (h : ¬c.toNat < 0x10000) (rest : List Char) :
    readUnicode (hex4 (0xd800 + (c.toNat - 0x10000) / 0x400) ++
      (unicodeEscape (0xdc00 + (c.toNat - 0x10000) % 0x400) ++ rest)) = some (c, rest) := by
  have hlt := toNat_lt c
  have hhigh : 0xd800 + (c.toNat - 0x10000) / 0x400 < 0xdc00 := by omega
  have hlow : 0xdc00 + (c.toNat - 0x10000) % 0x400 < 0x10000 := by omega
  have hcode : 0x10000 + (0xd800 + (c.toNat - 0x10000) / 0x400 - 0xd800) * 0x400 +
      (0xdc00 + (c.toNat - 0x10000) % 0x400 - 0xdc00) = c.toNat := by omega
  unfold readUnicode
  rw [readHex4_hex4 (by omega)]
  simp only [unicodeEscape, List.cons_append, List.drop_succ_cons, List.drop_zero]
  rw [if_pos ⟨by omega, hhigh⟩, readHex4_hex4 hlow]
  simp only [hcode, Char.ofNat_toNat]

theorem readChar_unicode (rest : List Char) :
    readChar ('\\' :: 'u' :: rest) = readUnicode rest := rfl

theorem readChar_short {c letter : Char} (h : shortEscape c = some letter) (rest : List Char) :
    readChar ('\\' :: letter :: rest) = some (c, rest) := by
  unfold shortEscape at h
  repeat' split at h
  all_goals first
    | (cases h; subst c; rfl)
    | cases h

theorem readChar_plain {c : Char} (h : c ≠ '\\') (rest : List Char) :
    readChar (c :: rest) = some (c, rest) := by
  unfold readChar
  split
  · rename_i heq
    exact absurd (List.cons.inj heq).1 h
  · rename_i heq
    exact absurd (List.cons.inj heq).1 h
  · rename_i heq
    obtain ⟨rfl, rfl⟩ := List.cons.inj heq
    rfl
  · rename_i heq
    cases heq

/-- A written character is read back, whatever follows it. -/
theorem readChar_escapeChar (c : Char) (rest : List Char) :
    readChar (escapeChar c ++ rest) = some (c, rest) := by
  unfold escapeChar
  split
  · rename_i letter hletter
    exact readChar_short hletter rest
  · rename_i hnone
    split
    · refine readChar_plain ?_ rest
      rintro rfl
      cases hnone
    · split
      · rename_i hunit
        rw [unicodeEscape, List.cons_append, List.cons_append, readChar_unicode,
          readUnicode_unit hunit]
      · rename_i hpair
        rw [List.append_assoc]
        conv_lhs => rw [unicodeEscape, List.cons_append, List.cons_append, readChar_unicode]
        exact readUnicode_pair hpair rest

/-! ## Literals -/

theorem escapeChar_append_inj {c d : Char} {x y : List Char}
    (h : escapeChar c ++ x = escapeChar d ++ y) : c = d ∧ x = y := by
  have hread := congrArg readChar h
  rw [readChar_escapeChar, readChar_escapeChar] at hread
  exact Prod.mk.inj (Option.some.inj hread)

/-- A written character does not start with the quote that ends a literal. -/
theorem escapeChar_append_ne (c : Char) (x y : List Char) : escapeChar c ++ x ≠ '"' :: y := by
  intro h
  have hread := congrArg readChar h
  rw [readChar_escapeChar, readChar_plain (by decide)] at hread
  obtain ⟨rfl, -⟩ := Prod.mk.inj (Option.some.inj hread)
  cases h

theorem flatMap_escapeChar_inj {s t x y : List Char}
    (h : s.flatMap escapeChar ++ '"' :: x = t.flatMap escapeChar ++ '"' :: y) :
    s = t ∧ x = y := by
  induction s generalizing t with
  | nil =>
    cases t with
    | nil => exact ⟨rfl, (List.cons.inj h).2⟩
    | cons d t =>
      rw [List.flatMap_cons, List.append_assoc] at h
      exact absurd h.symm (escapeChar_append_ne d _ _)
  | cons c s ih =>
    rw [List.flatMap_cons, List.append_assoc] at h
    cases t with
    | nil => exact absurd h (escapeChar_append_ne c _ _)
    | cons d t =>
      rw [List.flatMap_cons, List.append_assoc] at h
      obtain ⟨rfl, hrest⟩ := escapeChar_append_inj h
      obtain ⟨rfl, hxy⟩ := ih hrest
      exact ⟨rfl, hxy⟩

/-- A literal ends where it ends: the text and what is behind it are read off in one way. -/
theorem jsonString_append_inj {s t : String} {x y : List Char}
    (h : jsonString s ++ x = jsonString t ++ y) : s = t ∧ x = y := by
  simp only [jsonString, List.cons_append, List.append_assoc, List.nil_append,
    List.cons.injEq, true_and] at h
  obtain ⟨hst, hxy⟩ := flatMap_escapeChar_inj h
  exact ⟨String.toList_inj.mp hst, hxy⟩

end Meho.Lib
