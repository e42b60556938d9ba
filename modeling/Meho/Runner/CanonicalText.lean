import Meho.Runner.WorkItem

/- The canonical text of params determines them.

A signature covers the digest of this text, so two params with one text are
one and the same to the runner. `dumps_append_inj` reads a value off the front
of a longer text: a number or a word ends at a delimiter, a string at its
closing quote, an array or a mapping at its bracket. `canonicalParams_inj` is
the case the signature needs: equal texts, equal params up to the order of
their keys.

A float is its printed form, so the statements ask that it is one:
`wellFormed` says that it begins like a number, holds no delimiter and is not
the text of an integer. -/
namespace Meho.Runner
open Meho.Lib
open Meho.Approval (Params)

/-! ## Texts of numbers -/

/-- What may stand behind a value: a comma or a closing bracket. -/
def isDelimiter (c : Char) : Bool := c = ',' || c = ']' || c = '\x7d'

/-- The characters of an integer. -/
def isIntChar (c : Char) : Bool := c.isDigit || c = '-'

/-- The first characters of numbers, `NaN` and `Infinity` with them. -/
def isNumberStart (c : Char) : Bool := isIntChar c || c = 'N' || c = 'I'

/-- The printed form of a float. -/
def floatText (text : List Char) : Bool :=
  (text.head?.map isNumberStart).getD false && text.all (!isDelimiter ·) &&
    text.any (!isIntChar ·)

mutual
/-- Every float of the value is one. -/
def wellFormed : Json → Bool
  | .float text => floatText text.toList
  | .arr items => wellFormedItems items
  | .obj fields => wellFormedFields fields
  | _ => true

def wellFormedItems : List Json → Bool
  | [] => true
  | value :: items => wellFormed value && wellFormedItems items

def wellFormedFields : Dict → Bool
  | [] => true
  | (_, value) :: fields => wellFormed value && wellFormedFields fields
end

theorem toDigits_inj {m n : Nat} (h : Nat.toDigits 10 m = Nat.toDigits 10 n) : m = n := by
  have hread := congrArg (fun l => Nat.ofDigitChars 10 l 0) h
  simpa only [Nat.ofDigitChars_ten_toDigits] using hread

/-- The text of an integer: its digits, behind a sign when it is negative. -/
theorem dumps_int (i : Int) :
    dumps (.int i) = match i with
      | .ofNat n => Nat.toDigits 10 n
      | .negSucc n => '-' :: Nat.toDigits 10 (n + 1) := by
  cases i with
  | ofNat n =>
    show (toString n).toList = _
    rw [Nat.toString_eq_repr, Nat.toList_repr]
  | negSucc n =>
    show ("-" ++ toString (n + 1)).toList = _
    rw [String.toList_append, Nat.toString_eq_repr, Nat.toList_repr]
    rfl

variable {c : Char}

theorem isIntChar_of_mem_toDigits {n : Nat} (h : c ∈ Nat.toDigits 10 n) : isIntChar c = true := by
  have hdigit := Nat.isDigit_of_mem_toDigits (by decide) (by decide) h
  simp [isIntChar, hdigit]

theorem isIntChar_of_mem_int {i : Int} (h : c ∈ dumps (.int i)) : isIntChar c = true := by
  rw [dumps_int] at h
  cases i with
  | ofNat n => exact isIntChar_of_mem_toDigits h
  | negSucc n =>
    rcases List.mem_cons.mp h with rfl | hdigit
    · rfl
    · exact isIntChar_of_mem_toDigits hdigit

theorem dumps_int_inj {i j : Int} (h : dumps (.int i) = dumps (.int j)) : i = j := by
  have hdash : ∀ n : Nat, '-' ∉ Nat.toDigits 10 n := by
    intro n hmem
    have hdigit := Nat.isDigit_of_mem_toDigits (by decide) (by decide) hmem
    exact absurd hdigit (by decide)
  rw [dumps_int, dumps_int] at h
  cases i with
  | ofNat m =>
    cases j with
    | ofNat n => rw [toDigits_inj h]
    | negSucc n =>
      have hdigits : Nat.toDigits 10 m = '-' :: Nat.toDigits 10 (n + 1) := h
      exact absurd (hdigits ▸ List.mem_cons_self) (hdash m)
  | negSucc m =>
    cases j with
    | ofNat n =>
      have hdigits : Nat.toDigits 10 n = '-' :: Nat.toDigits 10 (m + 1) := h.symm
      exact absurd (hdigits ▸ List.mem_cons_self) (hdash n)
    | negSucc n =>
      have hsucc := toDigits_inj (List.cons.inj h).2
      rw [Nat.succ.inj hsucc]

theorem dumps_int_ne_nil (i : Int) : dumps (.int i) ≠ [] := by
  rw [dumps_int]
  cases i with
  | ofNat n => exact Nat.toDigits_ne_nil
  | negSucc n => simp

/-! ## Scalars -/

/-- Null, a boolean or a number. -/
def isScalar : Json → Bool
  | .null | .bool _ | .int _ | .float _ => true
  | _ => false

theorem not_isDelimiter_of_isIntChar (h : isIntChar c = true) : isDelimiter c = false := by
  by_contra hd
  have hcases : (c = ',' ∨ c = ']') ∨ c = '\x7d' := by
    simpa only [isDelimiter, Bool.not_eq_false, Bool.or_eq_true, decide_eq_true_eq] using hd
  rcases hcases with (rfl | rfl) | rfl <;> exact absurd h (by decide)

variable {value : Json}

theorem scalar_not_delimiter (hs : isScalar value = true) (hw : wellFormed value = true)
    (h : c ∈ dumps value) : isDelimiter c = false := by
  have hall : ∀ {text : List Char}, text.all (fun c => !isDelimiter c) = true → c ∈ text →
      isDelimiter c = false := by
    intro text hall hc
    simpa using List.all_eq_true.mp hall c hc
  cases value with
  | null => exact hall (by decide) h
  | bool b => cases b <;> exact hall (by decide) h
  | int i => exact not_isDelimiter_of_isIntChar (isIntChar_of_mem_int h)
  | float text =>
    have htext : floatText text.toList = true := hw
    simp only [floatText, Bool.and_eq_true, List.all_eq_true] at htext
    simpa using htext.1.2 c h
  | str s => cases hs
  | arr items => cases hs
  | obj fields => cases hs

theorem number_head (hv : (∃ i, value = .int i) ∨ ∃ text, value = .float text)
    (hw : wellFormed value = true) :
    ∃ c rest, dumps value = c :: rest ∧ isNumberStart c = true := by
  rcases hv with ⟨i, rfl⟩ | ⟨text, rfl⟩
  · obtain ⟨c, rest, hcons⟩ := List.exists_cons_of_ne_nil (dumps_int_ne_nil i)
    refine ⟨c, rest, hcons, ?_⟩
    have hint := isIntChar_of_mem_int (hcons ▸ List.mem_cons_self)
    simp [isNumberStart, hint]
  · have htext : floatText text.toList = true := hw
    simp only [floatText, Bool.and_eq_true] at htext
    change ∃ c rest, text.toList = c :: rest ∧ isNumberStart c = true
    cases hl : text.toList with
    | nil => rw [hl] at htext; simp at htext
    | cons c rest =>
      rw [hl] at htext
      exact ⟨c, rest, rfl, by simpa using htext.1.1⟩

/-- An integer is not printed as a float. -/
theorem int_ne_float {i : Int} {text : String} (hw : wellFormed (.float text) = true) :
    dumps (.int i) ≠ dumps (.float text) := by
  intro h
  have htext : floatText text.toList = true := hw
  simp only [floatText, Bool.and_eq_true, List.any_eq_true] at htext
  obtain ⟨c, hmem, hnot⟩ := htext.2
  have hint := isIntChar_of_mem_int (h ▸ hmem : c ∈ dumps (.int i))
  simp [hint] at hnot

theorem word_ne_number {word : Json} (hword : word = .null ∨ ∃ b, word = .bool b)
    (hv : (∃ i, value = .int i) ∨ ∃ text, value = .float text) (hw : wellFormed value = true) :
    dumps word ≠ dumps value := by
  obtain ⟨c, rest, hcons, hstart⟩ := number_head hv hw
  rw [hcons]
  intro h
  rcases hword with rfl | ⟨b, rfl⟩
  · obtain rfl := (List.cons.inj h).1
    exact absurd hstart (by decide)
  · cases b with
    | true | false =>
      obtain rfl := (List.cons.inj h).1
      exact absurd hstart (by decide)

variable {a b : Json}

theorem scalar_inj (ha : isScalar a = true) (hb : isScalar b = true) (hwa : wellFormed a = true)
    (hwb : wellFormed b = true) (h : dumps a = dumps b) : a = b := by
  cases a with
  | null =>
    cases b with
    | null => rfl
    | bool y => cases y <;> exact absurd h (by decide)
    | int j => exact absurd h (word_ne_number (.inl rfl) (.inl ⟨j, rfl⟩) hwb)
    | float y => exact absurd h (word_ne_number (.inl rfl) (.inr ⟨y, rfl⟩) hwb)
    | _ => cases hb
  | bool x =>
    cases b with
    | null => cases x <;> exact absurd h (by decide)
    | bool y => cases x <;> cases y <;> first | rfl | exact absurd h (by decide)
    | int j => exact absurd h (word_ne_number (.inr ⟨x, rfl⟩) (.inl ⟨j, rfl⟩) hwb)
    | float y => exact absurd h (word_ne_number (.inr ⟨x, rfl⟩) (.inr ⟨y, rfl⟩) hwb)
    | _ => cases hb
  | int i =>
    cases b with
    | null => exact absurd h.symm (word_ne_number (.inl rfl) (.inl ⟨i, rfl⟩) hwa)
    | bool y => exact absurd h.symm (word_ne_number (.inr ⟨y, rfl⟩) (.inl ⟨i, rfl⟩) hwa)
    | int j => rw [dumps_int_inj h]
    | float y => exact absurd h (int_ne_float hwb)
    | _ => cases hb
  | float x =>
    cases b with
    | null => exact absurd h.symm (word_ne_number (.inl rfl) (.inr ⟨x, rfl⟩) hwa)
    | bool y => exact absurd h.symm (word_ne_number (.inr ⟨y, rfl⟩) (.inr ⟨x, rfl⟩) hwa)
    | int j => exact absurd h.symm (int_ne_float hwa)
    | float y => rw [String.toList_inj.mp (h : x.toList = y.toList)]
    | _ => cases hb
  | _ => cases ha

/-! ## Where a value ends -/

/-- The text behind a value: nothing, or a delimiter first. -/
def Ends : List Char → Prop
  | [] => True
  | c :: _ => isDelimiter c = true

variable {x y : List Char}

theorem token_append_inj {s t : List Char} (hs : ∀ c ∈ s, isDelimiter c = false)
    (ht : ∀ c ∈ t, isDelimiter c = false) (hx : Ends x) (hy : Ends y) (h : s ++ x = t ++ y) :
    s = t ∧ x = y := by
  have hread : ∀ {s x : List Char}, (∀ c ∈ s, isDelimiter c = false) → Ends x →
      (s ++ x).takeWhile (!isDelimiter ·) = s := by
    intro s x hs hx
    rw [List.takeWhile_append_of_pos (fun c hc => by simp [hs c hc])]
    cases x with
    | nil => simp
    | cons c x =>
      have hc : isDelimiter c = true := hx
      simp [hc]
  have hst : s = t := by
    rw [← hread hs hx, ← hread ht hy, h]
  subst hst
  exact ⟨rfl, List.append_cancel_left h⟩

/-- The first character of a value. -/
def startsLike : Json → Char → Prop
  | .str _, c => c = '"'
  | .arr _, c => c = '['
  | .obj _, c => c = '\x7b'
  | _, c => isNumberStart c = true ∨ c = 'n' ∨ c = 't' ∨ c = 'f'

theorem dumps_head (hw : wellFormed value = true) :
    ∃ c rest, dumps value = c :: rest ∧ startsLike value c := by
  cases value with
  | null => exact ⟨'n', _, rfl, .inr (.inl rfl)⟩
  | bool b =>
    cases b with
    | true => exact ⟨'t', _, rfl, .inr (.inr (.inl rfl))⟩
    | false => exact ⟨'f', _, rfl, .inr (.inr (.inr rfl))⟩
  | int i =>
    obtain ⟨c, rest, hcons, hstart⟩ := number_head (.inl ⟨i, rfl⟩) hw
    exact ⟨c, rest, hcons, .inl hstart⟩
  | float text =>
    obtain ⟨c, rest, hcons, hstart⟩ := number_head (.inr ⟨text, rfl⟩) hw
    exact ⟨c, rest, hcons, .inl hstart⟩
  | str s => exact ⟨'"', _, rfl, rfl⟩
  | arr items => exact ⟨'[', _, rfl, rfl⟩
  | obj fields => exact ⟨'\x7b', _, rfl, rfl⟩

/-- The four shapes of a text. -/
inductive Shape where
  | scalar
  | str
  | arr
  | obj
  deriving DecidableEq

def shape : Json → Shape
  | .str _ => .str
  | .arr _ => .arr
  | .obj _ => .obj
  | _ => .scalar

/-- The shape by the first character. -/
def shapeOf (c : Char) : Shape :=
  if c = '"' then .str else if c = '[' then .arr else if c = '\x7b' then .obj else .scalar

theorem shapeOf_start (h : startsLike value c) :
    shapeOf c = shape value ∧ isDelimiter c = false := by
  have hscalar : (isNumberStart c = true ∨ c = 'n' ∨ c = 't' ∨ c = 'f') →
      shapeOf c = .scalar ∧ isDelimiter c = false := by
    intro hstart
    have hne : ∀ d : Char, isNumberStart d = false → d ≠ 'n' → d ≠ 't' → d ≠ 'f' → c ≠ d := by
      rintro d hd hn ht hf rfl
      rcases hstart with hstart | rfl | rfl | rfl
      · rw [hd] at hstart
        cases hstart
      · exact hn rfl
      · exact ht rfl
      · exact hf rfl
    have hquote := hne '"' (by decide) (by decide) (by decide) (by decide)
    have hopen := hne '[' (by decide) (by decide) (by decide) (by decide)
    have hbrace := hne '\x7b' (by decide) (by decide) (by decide) (by decide)
    have hcomma := hne ',' (by decide) (by decide) (by decide) (by decide)
    have hclose := hne ']' (by decide) (by decide) (by decide) (by decide)
    have hend := hne '\x7d' (by decide) (by decide) (by decide) (by decide)
    constructor
    · simp [shapeOf, hquote, hopen, hbrace]
    · simp [isDelimiter, hcomma, hclose, hend]
  cases value with
  | str s =>
    obtain rfl : c = '"' := h
    exact ⟨rfl, rfl⟩
  | arr items =>
    obtain rfl : c = '[' := h
    exact ⟨rfl, rfl⟩
  | obj fields =>
    obtain rfl : c = '\x7b' := h
    exact ⟨rfl, rfl⟩
  | null | bool b | int i | float text => exact hscalar h

theorem shape_eq (hwa : wellFormed a = true) (hwb : wellFormed b = true)
    (h : dumps a ++ x = dumps b ++ y) : shape a = shape b := by
  obtain ⟨c, s, hc, hstart⟩ := dumps_head hwa
  obtain ⟨d, t, hd, hstart'⟩ := dumps_head hwb
  rw [hc, hd] at h
  obtain rfl := (List.cons.inj h).1
  rw [← (shapeOf_start hstart).1, ← (shapeOf_start hstart').1]

theorem dumps_append_ne (hw : wellFormed value = true) (hc : isDelimiter c = true) :
    dumps value ++ x ≠ c :: y := by
  obtain ⟨d, rest, hd, hstart⟩ := dumps_head hw
  rw [hd]
  intro h
  obtain rfl := (List.cons.inj h).1
  rw [(shapeOf_start hstart).2] at hc
  cases hc

theorem isScalar_of_shape (h : shape value = .scalar) : isScalar value = true := by
  cases value with
  | str s => cases h
  | arr items => cases h
  | obj fields => cases h
  | null => rfl
  | bool b => rfl
  | int i => rfl
  | float text => rfl

theorem scalar_append_inj (ha : shape a = .scalar) (hwa : wellFormed a = true)
    (hwb : wellFormed b = true) (hx : Ends x) (hy : Ends y) (h : dumps a ++ x = dumps b ++ y) :
    a = b ∧ x = y := by
  have hsa := isScalar_of_shape ha
  have hsb := isScalar_of_shape ((shape_eq hwa hwb h).symm.trans ha)
  obtain ⟨htext, hrest⟩ := token_append_inj (fun c hc => scalar_not_delimiter hsa hwa hc)
    (fun c hc => scalar_not_delimiter hsb hwb hc) hx hy h
  exact ⟨scalar_inj hsa hsb hwa hwb htext, hrest⟩

/-! ## Lists of values -/

/-- What follows the first value of a list. -/
def itemsTail : List Json → List Char
  | [] => []
  | value :: items => ',' :: dumpItems (value :: items)

theorem dumpItems_cons (value : Json) (items : List Json) :
    dumpItems (value :: items) = dumps value ++ itemsTail items := by
  cases items with
  | nil => simp [dumpItems, itemsTail]
  | cons w items => rfl

/-- What follows the first entry of a mapping. -/
def fieldsTail : Dict → List Char
  | [] => []
  | entry :: fields => ',' :: dumpFields (entry :: fields)

theorem dumpFields_cons (key : String) (value : Json) (fields : Dict) :
    dumpFields ((key, value) :: fields) =
      jsonString key ++ ':' :: (dumps value ++ fieldsTail fields) := by
  cases fields with
  | nil => simp [dumpFields, fieldsTail]
  | cons entry fields => rfl

theorem ends_itemsTail (items : List Json) (x : List Char) : Ends (itemsTail items ++ ']' :: x) := by
  cases items with
  | nil => exact rfl
  | cons value items => exact rfl

theorem ends_fieldsTail (fields : Dict) (x : List Char) :
    Ends (fieldsTail fields ++ '\x7d' :: x) := by
  cases fields with
  | nil => exact rfl
  | cons entry fields => exact rfl

mutual
theorem dumps_append_inj : ∀ (a b : Json) {x y : List Char}, wellFormed a = true →
    wellFormed b = true → Ends x → Ends y → dumps a ++ x = dumps b ++ y → a = b ∧ x = y
  | .null, b, _, _, hwa, hwb, hx, hy, h | .bool _, b, _, _, hwa, hwb, hx, hy, h
  | .int _, b, _, _, hwa, hwb, hx, hy, h | .float _, b, _, _, hwa, hwb, hx, hy, h =>
      scalar_append_inj rfl hwa hwb hx hy h
  | .str s, b, _, _, hwa, hwb, _, _, h => by
    have hshape := shape_eq hwa hwb h
    cases b with
    | str t =>
      obtain ⟨rfl, hrest⟩ := jsonString_append_inj h
      exact ⟨rfl, hrest⟩
    | _ => cases hshape
  | .arr items, b, x, y, hwa, hwb, _, _, h => by
    have hshape := shape_eq hwa hwb h
    cases b with
    | arr items' =>
      have hrest : dumpItems items ++ ']' :: x = dumpItems items' ++ ']' :: y := by
        simpa [dumps] using h
      obtain ⟨hitems, hxy⟩ := dumpItems_append_inj items items' hwa hwb hrest
      rw [hitems]
      exact ⟨rfl, hxy⟩
    | _ => cases hshape
  | .obj fields, b, x, y, hwa, hwb, _, _, h => by
    have hshape := shape_eq hwa hwb h
    cases b with
    | obj fields' =>
      have hrest : dumpFields fields ++ '\x7d' :: x = dumpFields fields' ++ '\x7d' :: y := by
        simpa [dumps] using h
      obtain ⟨hfields, hxy⟩ := dumpFields_append_inj fields fields' hwa hwb hrest
      rw [hfields]
      exact ⟨rfl, hxy⟩
    | _ => cases hshape

theorem dumpItems_append_inj : ∀ (items items' : List Json) {x y : List Char},
    wellFormedItems items = true → wellFormedItems items' = true →
    dumpItems items ++ ']' :: x = dumpItems items' ++ ']' :: y → items = items' ∧ x = y
  | [], [], _, _, _, _, h => ⟨rfl, (List.cons.inj h).2⟩
  | [], value :: items', _, _, _, hw', h => by
    have hvalue : wellFormed value = true := by
      simp only [wellFormedItems, Bool.and_eq_true] at hw'
      exact hw'.1
    rw [dumpItems_cons, List.append_assoc] at h
    exact absurd h.symm (dumps_append_ne hvalue (by decide))
  | value :: items, [], _, _, hw, _, h => by
    have hvalue : wellFormed value = true := by
      simp only [wellFormedItems, Bool.and_eq_true] at hw
      exact hw.1
    rw [dumpItems_cons, List.append_assoc] at h
    exact absurd h (dumps_append_ne hvalue (by decide))
  | value :: items, value' :: items', x, y, hw, hw', h => by
    simp only [wellFormedItems, Bool.and_eq_true] at hw hw'
    rw [dumpItems_cons, dumpItems_cons, List.append_assoc, List.append_assoc] at h
    obtain ⟨rfl, htail⟩ := dumps_append_inj value value' hw.1 hw'.1 (ends_itemsTail items x)
      (ends_itemsTail items' y) h
    cases items with
    | nil =>
      cases items' with
      | nil => exact ⟨rfl, (List.cons.inj htail).2⟩
      | cons w' items' => exact absurd (List.cons.inj htail).1 (by decide)
    | cons w items =>
      cases items' with
      | nil => exact absurd (List.cons.inj htail).1 (by decide)
      | cons w' items' =>
        obtain ⟨hitems, hxy⟩ := dumpItems_append_inj (w :: items) (w' :: items') hw.2 hw'.2
          (List.cons.inj htail).2
        rw [hitems]
        exact ⟨rfl, hxy⟩

theorem dumpFields_append_inj : ∀ (fields fields' : Dict) {x y : List Char},
    wellFormedFields fields = true → wellFormedFields fields' = true →
    dumpFields fields ++ '\x7d' :: x = dumpFields fields' ++ '\x7d' :: y →
    fields = fields' ∧ x = y
  | [], [], _, _, _, _, h => ⟨rfl, (List.cons.inj h).2⟩
  | [], (key, value) :: fields', _, _, _, _, h | (key, value) :: fields, [], _, _, _, _, h => by
    rw [dumpFields_cons, List.append_assoc] at h
    exact absurd (List.cons.inj h).1 (by decide)
  | (key, value) :: fields, (key', value') :: fields', x, y, hw, hw', h => by
    simp only [wellFormedFields, Bool.and_eq_true] at hw hw'
    rw [dumpFields_cons, dumpFields_cons, List.append_assoc, List.append_assoc] at h
    obtain ⟨rfl, hvalues⟩ := jsonString_append_inj h
    have htexts : dumps value ++ (fieldsTail fields ++ '\x7d' :: x) =
        dumps value' ++ (fieldsTail fields' ++ '\x7d' :: y) := by
      simpa using hvalues
    obtain ⟨rfl, htail⟩ := dumps_append_inj value value' hw.1 hw'.1 (ends_fieldsTail fields x)
      (ends_fieldsTail fields' y) htexts
    cases fields with
    | nil =>
      cases fields' with
      | nil => exact ⟨rfl, (List.cons.inj htail).2⟩
      | cons e' fields' => exact absurd (List.cons.inj htail).1 (by decide)
    | cons e fields =>
      cases fields' with
      | nil => exact absurd (List.cons.inj htail).1 (by decide)
      | cons e' fields' =>
        obtain ⟨hfields, hxy⟩ := dumpFields_append_inj (e :: fields) (e' :: fields') hw.2 hw'.2
          (List.cons.inj htail).2
        rw [hfields]
        exact ⟨rfl, hxy⟩
end

/-! ## Params -/

theorem wellFormedFields_iff (fields : Dict) :
    wellFormedFields fields = true ↔ ∀ e ∈ fields, wellFormed e.2 = true := by
  induction fields with
  | nil => simp [wellFormedFields]
  | cons e fields ih =>
    obtain ⟨key, value⟩ := e
    simp [wellFormedFields, ih]

mutual
/-- Sorting keys touches no float. -/
theorem wellFormed_sortKeys : ∀ value : Json, wellFormed value = true →
    wellFormed (sortKeys value) = true
  | .null, h => h
  | .bool _, h => h
  | .int _, h => h
  | .float _, h => h
  | .str _, h => h
  | .arr items, h => wellFormedItems_sortItems items h
  | .obj fields, h => by
    have hsorted := wellFormedFields_sortFields fields h
    change wellFormedFields _ = true
    rw [wellFormedFields_iff] at hsorted ⊢
    intro e he
    exact hsorted e (List.mem_mergeSort.mp he)

theorem wellFormedItems_sortItems : ∀ items : List Json, wellFormedItems items = true →
    wellFormedItems (sortItems items) = true
  | [], h => h
  | value :: items, h => by
    simp only [wellFormedItems, sortItems, Bool.and_eq_true] at h ⊢
    exact ⟨wellFormed_sortKeys value h.1, wellFormedItems_sortItems items h.2⟩

theorem wellFormedFields_sortFields : ∀ fields : Dict, wellFormedFields fields = true →
    wellFormedFields (sortFields fields) = true
  | [], h => h
  | (_, value) :: fields, h => by
    simp only [wellFormedFields, sortFields, Bool.and_eq_true] at h ⊢
    exact ⟨wellFormed_sortKeys value h.1, wellFormedFields_sortFields fields h.2⟩
end

/-- The params with the entries of every mapping in the order of their keys: what two params
that say the same have in common. -/
def sortedParams (params : Params) : Json := sortKeys (.obj params)

/-- Params with one canonical text say the same. -/
theorem canonicalParams_inj {p q : Params} (hp : wellFormedFields p = true)
    (hq : wellFormedFields q = true) (h : canonicalParams p = canonicalParams q) :
    sortedParams p = sortedParams q := by
  have hwp : wellFormed (sortedParams p) = true := wellFormed_sortKeys (.obj p) hp
  have hwq : wellFormed (sortedParams q) = true := wellFormed_sortKeys (.obj q) hq
  have htext : dumps (sortedParams p) ++ [] = dumps (sortedParams q) ++ [] := by
    simpa [canonicalParams, sortedParams] using h
  have hend : Ends [] := trivial
  exact (dumps_append_inj _ _ hwp hwq hend hend htext).1

end Meho.Runner
