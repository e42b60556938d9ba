import Mathlib.Data.List.Basic
import Mathlib.Data.String.Basic

/- The globs that name the free-text paths of a payload (redaction/path_glob.py).

A glob is compiled to the parts of an anchored pattern, and a path is matched when its text is
cut into what the parts take. Read segment by segment, `*` is to stand for one segment and
`**` for any number of them (`Covers`). The compiled pattern reads a glob otherwise in two
ways (`Reads`): a dot is compiled before every segment but the first, so that a segment which
is not the glob's last leaves something of the path, and `**` takes text without line breaks,
one at the end of the path apart, where the pattern's `$` lets it stand.

`compile_segment` gives the parts segment by segment, `accepts_compile` what they accept, and
`path_matches_iff` when that is the segments' meaning.

Correspondence: `re.Pattern.match` ↔ `accepts`; what is not listed keeps its name. -/
namespace Meho.Redaction

/-! ## The compiled pattern -/

/-- The literal read so far is a token of its own. -/
def endLiteral (literal : List Char) (tokens : List String) : List String :=
  if literal = [] then tokens else String.ofList literal :: tokens

/-- `literal` is what has been read of a literal segment. -/
def tokenise (literal : List Char) : List Char → List String
  | [] => endLiteral literal []
  | '*' :: '*' :: '.' :: glob => endLiteral literal ("**" :: "." :: tokenise [] glob)
  | '*' :: '*' :: glob => endLiteral literal ("**" :: tokenise [] glob)
  | '*' :: glob => endLiteral literal ("*" :: tokenise [] glob)
  | '.' :: glob => endLiteral literal ("." :: tokenise [] glob)
  | c :: glob => tokenise (literal ++ [c]) glob

/-- A part of the compiled pattern. -/
inductive RegexPart where
  | literal (text : String)
  /-- `[^.]+` -/
  | segment
  /-- `\.` -/
  | dot
  /-- `(?:.*\.)?` -/
  | upstream
  /-- `.*` -/
  | anything
  deriving DecidableEq, Repr

def RegexPart.ofToken (token : String) : RegexPart :=
  if token = "*" then .segment else if token = "." then .dot else .literal token

/-- `pendingDouble`: a `**` has been read, and nothing emitted for it yet. -/
def compileTokens (pendingDouble : Bool) : List String → List RegexPart
  | [] => if pendingDouble then [.anything] else []
  | token :: tokens =>
    if token = "**" then compileTokens true tokens
    else if pendingDouble && token = "." then compileTokens true tokens
    else (if pendingDouble then [.upstream] else []) ++
      RegexPart.ofToken token :: compileTokens false tokens

/-- The parts between `^` and `$`. -/
def globToRegex (glob : String) : List RegexPart := compileTokens false (tokenise [] glob.toList)

/-- A dot of the pattern stands for any character but a line break. -/
def RegexPart.takes : RegexPart → List Char → Bool
  | .literal text, taken => taken == text.toList
  | .segment, taken => taken ≠ [] && '.' ∉ taken
  | .dot, taken => taken == ['.']
  | .upstream, taken => taken == [] || (taken.getLast? == some '.' && '\n' ∉ taken.dropLast)
  | .anything, taken => '\n' ∉ taken

/-- `$` stands at the end of the text and before a line break that ends it. -/
def accepts : List RegexPart → List Char → Bool
  | [], text => text == [] || text == ['\n']
  | part :: parts, text => (List.range (text.length + 1)).any fun n =>
    part.takes (text.take n) && accepts parts (text.drop n)

def pathMatches (globs : List String) (path : String) : Bool :=
  globs.any fun glob => accepts (globToRegex glob) path.toList

/-! ## Globs and paths by segments -/

inductive GlobSegment where
  | literal (text : String)
  | one
  | many
  deriving DecidableEq, Repr

def GlobSegment.text : GlobSegment → String
  | .literal text => text
  | .one => "*"
  | .many => "**"

def GlobSegment.WellFormed : GlobSegment → Prop
  | .literal text => text ≠ "" ∧ '.' ∉ text.toList ∧ '*' ∉ text.toList
  | .one | .many => True

structure DottedGlob where
  segments : List GlobSegment
  nonempty : segments ≠ []
  wellFormed : ∀ segment ∈ segments, segment.WellFormed

structure DottedPath where
  segments : List String
  wellFormed : ∀ segment ∈ segments, segment ≠ "" ∧ '.' ∉ segment.toList

def DottedGlob.text (glob : DottedGlob) : String := ".".intercalate (glob.segments.map (·.text))

def DottedPath.text (path : DottedPath) : String := ".".intercalate path.segments

/-- A glob's segments match those of a path: `*` one of them, `**` any number. -/
inductive Covers : List GlobSegment → List String → Prop where
  | nil : Covers [] []
  | literal {glob path} (text : String) : Covers glob path →
      Covers (.literal text :: glob) (text :: path)
  | one {glob path} (segment : String) : Covers glob path → Covers (.one :: glob) (segment :: path)
  | many {glob rest} (taken : List String) : Covers glob rest → Covers (.many :: glob) (taken ++ rest)

/-- No line break, one at the end apart. -/
def OneLine (text : List Char) : Prop :=
  '\n' ∉ text ∨ ∃ line, text = line ++ ['\n'] ∧ '\n' ∉ line

/-- The glob covers the path as its compiled pattern reads it: a segment that is not the glob's
last leaves something of the path, and `**` stands for segments without line breaks, one at the
 end of the path apart. `ending` stands behind a last literal. -/
inductive Reads (ending : String) : List GlobSegment → List String → Prop where
  | lastLiteral (text : String) : Reads ending [.literal text] [text ++ ending]
  | lastOne (segment : String) : Reads ending [.one] [segment]
  | literal {next glob segment path} (text : String) : Reads ending (next :: glob) (segment :: path) →
      Reads ending (.literal text :: next :: glob) (text :: segment :: path)
  | one {next glob segment path} (any : String) : Reads ending (next :: glob) (segment :: path) →
      Reads ending (.one :: next :: glob) (any :: segment :: path)
  | many {glob rest} (taken : List String) : (∃ next ∈ glob, next ≠ .many) →
      (∀ segment ∈ taken, '\n' ∉ segment.toList) → Reads ending glob rest →
      Reads ending (.many :: glob) (taken ++ rest)
  | lastMany {glob path} : (∀ next ∈ glob, next = .many) →
      OneLine (".".intercalate path).toList → Reads ending (.many :: glob) path

/-- The glob's last segment is a literal, read with a line break behind it. -/
def EndsWithBreak (glob : List GlobSegment) (path : List String) : Prop :=
  (∃ text, glob.getLast? = some (.literal text)) ∧ Reads "\n" glob path

/-- The compiled glob means what its segments do. -/
def ReadAsMeant (glob : List GlobSegment) (path : List String) : Prop :=
  (Covers glob path → Reads "" glob path) ∧ ¬ EndsWithBreak glob path

/-! ## Texts with dots -/

/-- Segments with a dot between each two. -/
def dotted : List String → List Char
  | [] => []
  | [segment] => segment.toList
  | segment :: next :: path => segment.toList ++ '.' :: dotted (next :: path)

theorem toList_intercalate (path : List String) : (".".intercalate path).toList = dotted path := by
  rw [String.toList_intercalate]
  induction path with
  | nil => rfl
  | cons segment path ih =>
    cases path with
    | nil => simp [dotted, List.intercalate]
    | cons next path => simpa [dotted, List.intercalate] using ih

theorem DottedPath.toList_text (path : DottedPath) : path.text.toList = dotted path.segments :=
  toList_intercalate path.segments

/-- Every segment has a character, and no dot. -/
def Segmented (path : List String) : Prop := ∀ segment ∈ path, segment ≠ "" ∧ '.' ∉ segment.toList

variable {path : List String}

theorem Segmented.tail {segment : String} (h : Segmented (segment :: path)) :
    Segmented path := fun other hother => h other (List.mem_cons_of_mem _ hother)

theorem dotted_eq_single {text : List Char} (hdot : '.' ∉ text) (hne : text ≠ [])
    (heq : dotted path = text) : path = [String.ofList text] := by
  match path with
  | [] => exact absurd heq.symm hne
  | [segment] =>
    rw [← heq]
    simp [dotted]
  | segment :: next :: path =>
    rw [← heq] at hdot
    simp [dotted] at hdot

theorem dotted_eq_append (h : Segmented path) {before after : List Char}
    (heq : dotted path = before ++ '.' :: after) :
    ∃ taken segment rest, path = taken ++ segment :: rest ∧ taken ≠ [] ∧
      dotted taken = before ∧ dotted (segment :: rest) = after := by
  induction path generalizing before with
  | nil => simp [dotted] at heq
  | cons first path ih =>
    have hdot := (h first List.mem_cons_self).2
    cases path with
    | nil =>
      -- a single segment holds no dot
      exfalso
      apply hdot
      show '.' ∈ first.toList
      rw [show first.toList = before ++ '.' :: after from heq]
      simp
    | cons next path =>
      have hsplit : first.toList ++ '.' :: dotted (next :: path) = before ++ '.' :: after := heq
      rcases List.append_eq_append_iff.mp hsplit with ⟨mid, hbefore, hrest⟩ | ⟨mid, hfirst, hrest⟩
      · cases mid with
        | nil =>
          have hafter : dotted (next :: path) = after := by simpa using hrest
          exact ⟨[first], next, path, rfl, by simp, by simpa [dotted] using hbefore.symm, hafter⟩
        | cons c mid =>
          obtain ⟨rfl, hnext⟩ := List.cons.inj hrest
          obtain ⟨taken, segment, rest, hpath, hne, htaken, hafter⟩ := ih h.tail hnext
          refine ⟨first :: taken, segment, rest, by rw [hpath]; rfl, by simp, ?_, hafter⟩
          cases taken with
          | nil => exact absurd rfl hne
          | cons other taken =>
            rw [hbefore]
            show first.toList ++ '.' :: dotted (other :: taken) = _
            rw [htaken]
      · cases mid with
        | nil =>
          have hafter : dotted (next :: path) = after := by simpa using hrest.symm
          exact ⟨[first], next, path, rfl, by simp, by simpa [dotted] using hfirst, hafter⟩
        | cons c mid =>
          -- the dot would lie inside the first segment
          exfalso
          apply hdot
          obtain ⟨rfl, -⟩ := List.cons.inj hrest
          rw [hfirst]
          simp

theorem dotted_append {taken rest : List String} (htaken : taken ≠ []) (hrest : rest ≠ []) :
    dotted (taken ++ rest) = dotted taken ++ '.' :: dotted rest := by
  induction taken with
  | nil => exact absurd rfl htaken
  | cons segment taken ih =>
    cases taken with
    | nil =>
      cases rest with
      | nil => exact absurd rfl hrest
      | cons next rest => rfl
    | cons next taken =>
      have hnext := ih (by simp)
      show segment.toList ++ '.' :: dotted (next :: taken ++ rest) = _
      rw [hnext]
      simp [dotted]

theorem not_mem_dotted {c : Char} (hc : c ≠ '.') :
    c ∉ dotted path ↔ ∀ segment ∈ path, c ∉ segment.toList := by
  induction path with
  | nil => simp [dotted]
  | cons segment path ih =>
    cases path with
    | nil => simp [dotted]
    | cons next path =>
      simp only [dotted, List.mem_append, List.mem_cons, hc, false_or, not_or] at ih ⊢
      simp [ih]

/-! ## The parts of a glob -/

def globTokens : List GlobSegment → List String
  | [] => []
  | [segment] => [segment.text]
  | segment :: next :: glob => segment.text :: "." :: globTokens (next :: glob)

theorem tokenise_char {c : Char} (hdot : c ≠ '.') (hstar : c ≠ '*') (literal glob : List Char) :
    tokenise literal (c :: glob) = tokenise (literal ++ [c]) glob := by
  rw [tokenise] <;> simp_all

/-- A literal segment is read to its end. -/
theorem tokenise_literal {text : List Char} (hdot : '.' ∉ text) (hstar : '*' ∉ text)
    (literal glob : List Char) :
    tokenise literal (text ++ glob) = tokenise (literal ++ text) glob := by
  induction text generalizing literal with
  | nil => simp
  | cons c text ih =>
    simp only [List.mem_cons, not_or] at hdot hstar
    rw [List.cons_append, tokenise_char (Ne.symm hdot.1) (Ne.symm hstar.1), ih hdot.2 hstar.2,
      List.append_assoc, List.singleton_append]

theorem endLiteral_toList {text : String} (hne : text ≠ "") (tokens : List String) :
    endLiteral text.toList tokens = text :: tokens := by
  rw [endLiteral, if_neg (by simpa using hne), String.ofList_toList]

variable {segment : GlobSegment}

theorem tokenise_segment (h : segment.WellFormed) :
    tokenise [] segment.text.toList = [segment.text] ∧ ∀ glob,
      tokenise [] (segment.text.toList ++ '.' :: glob) = segment.text :: "." :: tokenise [] glob := by
  cases segment with
  | one | many => exact ⟨rfl, fun _ => rfl⟩
  | literal text =>
    obtain ⟨hne, hdot, hstar⟩ := h
    constructor
    · have hread := tokenise_literal hdot hstar [] []
      rw [List.append_nil, List.nil_append] at hread
      show tokenise [] text.toList = [text]
      rw [hread, tokenise, endLiteral_toList hne]
    · intro glob
      show tokenise [] (text.toList ++ '.' :: glob) = _
      rw [tokenise_literal hdot hstar, List.nil_append, tokenise, endLiteral_toList hne]
      rfl

variable {glob : List GlobSegment}

theorem tokenise_glob (h : ∀ segment ∈ glob, segment.WellFormed) :
    tokenise [] (dotted (glob.map (·.text))) = globTokens glob := by
  induction glob with
  | nil => rfl
  | cons segment glob ih =>
    have hsegment := tokenise_segment (h segment List.mem_cons_self)
    cases glob with
    | nil => exact hsegment.1
    | cons next glob =>
      have hrest := ih fun other hother => h other (List.mem_cons_of_mem _ hother)
      show tokenise [] (segment.text.toList ++ '.' :: dotted ((next :: glob).map (·.text))) = _
      rw [hsegment.2, hrest]
      rfl

def GlobSegment.part : GlobSegment → RegexPart
  | .literal text => .literal text
  | .one => .segment
  | .many => .anything

/-- The parts behind a segment: a dot and those of the next. -/
def partsBehind : List GlobSegment → List RegexPart
  | [] => []
  | next :: glob => .dot :: compileTokens false (globTokens (next :: glob))

theorem compile_many (pending : Bool) (glob : List GlobSegment) :
    compileTokens pending (globTokens (.many :: glob)) = compileTokens true (globTokens glob) := by
  cases glob <;> rfl

theorem compile_segment (pending : Bool) (h : segment.WellFormed) (hmany : segment ≠ .many)
    (glob : List GlobSegment) :
    compileTokens pending (globTokens (segment :: glob)) =
      (if pending then [.upstream] else []) ++ segment.part :: partsBehind glob := by
  have htoken : segment.text ≠ "**" ∧ segment.text ≠ "." ∧
      RegexPart.ofToken segment.text = segment.part := by
    cases segment with
    | one => exact ⟨by decide, by decide, rfl⟩
    | many => exact absurd rfl hmany
    | literal text =>
      obtain ⟨-, hdot, hstar⟩ := h
      have hne : text ≠ "**" ∧ text ≠ "." ∧ text ≠ "*" := by
        refine ⟨?_, ?_, ?_⟩ <;> rintro rfl <;> simp_all
      refine ⟨hne.1, hne.2.1, ?_⟩
      show RegexPart.ofToken text = .literal text
      simp [RegexPart.ofToken, hne]
  obtain ⟨hdouble, hdot, hpart⟩ := htoken
  cases glob with
  | nil => simp [globTokens, compileTokens, partsBehind, hdouble, hdot, hpart]
  | cons next glob =>
    have hbehind : compileTokens false ("." :: globTokens (next :: glob)) =
        partsBehind (next :: glob) := by
      simp [compileTokens, partsBehind, RegexPart.ofToken]
    rw [globTokens, compileTokens, if_neg hdouble, hbehind, hpart]
    simp [hdot]

/-! ## What the parts accept -/

variable {parts : List RegexPart}

theorem accepts_cons {part : RegexPart} {text : List Char} :
    accepts (part :: parts) text = true ↔
      ∃ taken rest, text = taken ++ rest ∧ part.takes taken = true ∧ accepts parts rest = true := by
  simp only [accepts, List.any_eq_true, List.mem_range, Bool.and_eq_true]
  constructor
  · rintro ⟨n, -, htakes, hrest⟩
    exact ⟨_, _, (List.take_append_drop n text).symm, htakes, hrest⟩
  · rintro ⟨taken, rest, rfl, htakes, hrest⟩
    have hlt : taken.length < (taken ++ rest).length + 1 := by
      rw [List.length_append]
      omega
    exact ⟨taken.length, hlt, by simpa using htakes, by simpa using hrest⟩

theorem accepts_nil {text : List Char} : accepts [] text = true ↔ text = [] ∨ text = ['\n'] := by
  simp [accepts]

variable {chars : List Char}

theorem accepts_literal {text : String} :
    accepts (.literal text :: parts) chars = true ↔
      ∃ rest, chars = text.toList ++ rest ∧ accepts parts rest = true := by
  rw [accepts_cons]
  simp [RegexPart.takes]

theorem accepts_segment :
    accepts (.segment :: parts) chars = true ↔ ∃ taken rest, chars = taken ++ rest ∧
      taken ≠ [] ∧ '.' ∉ taken ∧ accepts parts rest = true := by
  rw [accepts_cons]
  simp [RegexPart.takes, and_assoc]

theorem accepts_dot :
    accepts (.dot :: parts) chars = true ↔
      ∃ rest, chars = '.' :: rest ∧ accepts parts rest = true := by
  rw [accepts_cons]
  simp [RegexPart.takes]

theorem accepts_upstream :
    accepts (.upstream :: parts) chars = true ↔ accepts parts chars = true ∨
      ∃ before rest, chars = before ++ '.' :: rest ∧ '\n' ∉ before ∧
        accepts parts rest = true := by
  rw [accepts_cons]
  constructor
  · rintro ⟨taken, rest, rfl, htakes, hrest⟩
    rcases List.eq_nil_or_concat taken with rfl | ⟨before, last, rfl⟩
    · exact .inl hrest
    · right
      simp only [RegexPart.takes, List.concat_eq_append, List.dropLast_concat] at htakes
      simp at htakes
      exact ⟨before, rest, by simp [htakes.1], htakes.2, hrest⟩
  · rintro (h | ⟨before, rest, rfl, hline, hrest⟩)
    · exact ⟨[], chars, rfl, rfl, h⟩
    · exact ⟨before ++ ['.'], rest, by simp, by simp [RegexPart.takes, hline], hrest⟩

theorem accepts_anything : accepts [.anything] chars = true ↔ OneLine chars := by
  rw [accepts_cons]
  simp only [accepts_nil, RegexPart.takes, decide_eq_true_eq]
  constructor
  · rintro ⟨taken, rest, rfl, hline, rfl | rfl⟩
    · left
      simpa using hline
    · exact .inr ⟨taken, rfl, hline⟩
  · rintro (hline | ⟨line, rfl, hline⟩)
    · exact ⟨chars, [], by simp, hline, .inl rfl⟩
    · exact ⟨line, ['\n'], rfl, hline, .inr rfl⟩

/-! ## Reading a path -/

variable {ending : String}

theorem Reads.ne_nil (hmany : segment ≠ .many) (h : Reads ending (segment :: glob) path) :
    path ≠ [] := by
  cases h with
  | many | lastMany => exact absurd rfl hmany
  | lastLiteral | lastOne | literal | one => exact List.cons_ne_nil _ _

theorem reads_many_many :
    Reads ending (.many :: .many :: glob) path ↔ Reads ending (.many :: glob) path := by
  constructor
  · intro h
    cases h with
    | many taken hnext hline hrest =>
      cases hrest with
      | many taken' hnext' hline' hrest' =>
        rw [← List.append_assoc]
        refine .many _ hnext' (fun segment hsegment => ?_) hrest'
        rcases List.mem_append.mp hsegment with hin | hin
        · exact hline segment hin
        · exact hline' segment hin
      | lastMany hall =>
        obtain ⟨next, hmem, hne⟩ := hnext
        rcases List.mem_cons.mp hmem with rfl | hmem
        · exact absurd rfl hne
        · exact absurd (hall next hmem) hne
    | lastMany hall hline =>
      exact .lastMany (fun next hnext => hall next (List.mem_cons_of_mem _ hnext)) hline
  · intro h
    cases h with
    | many taken hnext hline hrest =>
      obtain ⟨next, hmem, hne⟩ := hnext
      exact .many [] ⟨next, List.mem_cons_of_mem _ hmem, hne⟩ (by simp)
        (.many taken ⟨next, hmem, hne⟩ hline hrest)
    | lastMany hall hline =>
      refine .lastMany (fun next hnext => ?_) hline
      rcases List.mem_cons.mp hnext with rfl | hnext
      · rfl
      · exact hall next hnext

theorem dotted_eq_cons (h : Segmented path) {text rest : List Char} (hdot : '.' ∉ text)
    (hne : text ≠ []) :
    dotted path = text ++ '.' :: rest ↔ ∃ segment others,
      path = String.ofList text :: segment :: others ∧ dotted (segment :: others) = rest := by
  constructor
  · intro heq
    obtain ⟨taken, segment, others, hpath, -, htaken, hrest⟩ := dotted_eq_append h heq
    rw [dotted_eq_single hdot hne htaken] at hpath
    exact ⟨segment, others, hpath, hrest⟩
  · rintro ⟨segment, others, rfl, rfl⟩
    simp [dotted]

section Accepts

/-- What accepts the rest of a path accepts a glob's other segments. -/
def AcceptsAs (glob : List GlobSegment) (parts : List RegexPart) : Prop :=
  ∀ path, Segmented path → (accepts parts (dotted path) = true ↔
    Reads "" glob path ∨ Reads "\n" glob path)

theorem acceptsAs_lastLiteral {text : String} (h : (GlobSegment.literal text).WellFormed) :
    AcceptsAs [.literal text] [.literal text] := by
  intro path _
  obtain ⟨hne, hdot, -⟩ := h
  simp only [accepts_literal, accepts_nil]
  constructor
  · rintro ⟨rest, heq, rfl | rfl⟩
    · obtain rfl := dotted_eq_single (by simpa using hdot) (by simpa using hne) heq
      left
      simpa using (Reads.lastLiteral text : Reads "" [.literal text] [text ++ ""])
    · obtain rfl := dotted_eq_single (by simpa using hdot) (by simp) heq
      right
      rw [show String.ofList (text.toList ++ ['\n']) = text ++ "\n" by
        rw [String.ofList_append, String.ofList_toList]]
      exact .lastLiteral text
  · rintro (h | h)
    · cases h
      exact ⟨[], by simp [dotted], .inl rfl⟩
    · cases h
      exact ⟨['\n'], by simp [dotted], .inr rfl⟩

theorem acceptsAs_lastOne : AcceptsAs [.one] [.segment] := by
  intro path hpath
  simp only [accepts_segment, accepts_nil]
  constructor
  · rintro ⟨taken, rest, heq, hne, hdot, hrest⟩
    have hrestDot : '.' ∉ rest := by rcases hrest with rfl | rfl <;> simp
    obtain rfl := dotted_eq_single (by simp [hdot, hrestDot]) (by simp [hne]) heq
    exact .inl (.lastOne _)
  · intro h
    have hsingle : ∃ segment, path = [segment] := by
      rcases h with h | h <;> cases h <;> exact ⟨_, rfl⟩
    obtain ⟨segment, rfl⟩ := hsingle
    obtain ⟨hne, hdot⟩ := hpath segment List.mem_cons_self
    exact ⟨segment.toList, [], by simp [dotted], by simpa using hne, hdot, .inl rfl⟩

variable {glob : List GlobSegment} {parts : List RegexPart}

theorem acceptsAs_literal {text : String} (h : (GlobSegment.literal text).WellFormed)
    {next : GlobSegment} (hnext : AcceptsAs (next :: glob) parts) :
    AcceptsAs (.literal text :: next :: glob) (.literal text :: .dot :: parts) := by
  intro path hpath
  obtain ⟨hne, hdot, -⟩ := h
  simp only [accepts_literal, accepts_dot]
  constructor
  · rintro ⟨_, heq, rest, rfl, hrest⟩
    obtain ⟨segment, others, rfl, rfl⟩ :=
      (dotted_eq_cons hpath hdot (by simpa using hne)).mp heq
    rw [String.ofList_toList]
    rcases (hnext _ hpath.tail).mp hrest with hread | hread
    · exact .inl (.literal text hread)
    · exact .inr (.literal text hread)
  · intro hreads
    have hsplit : ∃ segment others, path = text :: segment :: others ∧
        (Reads "" (next :: glob) (segment :: others) ∨
          Reads "\n" (next :: glob) (segment :: others)) := by
      rcases hreads with hread | hread
      · cases hread with | literal _ hread => exact ⟨_, _, rfl, .inl hread⟩
      · cases hread with | literal _ hread => exact ⟨_, _, rfl, .inr hread⟩
    obtain ⟨segment, others, rfl, hread⟩ := hsplit
    exact ⟨_, rfl, _, rfl, (hnext _ hpath.tail).mpr hread⟩

theorem acceptsAs_one {next : GlobSegment} (hnext : AcceptsAs (next :: glob) parts) :
    AcceptsAs (.one :: next :: glob) (.segment :: .dot :: parts) := by
  intro path hpath
  simp only [accepts_segment, accepts_dot]
  constructor
  · rintro ⟨taken, _, heq, hne, hdot, rest, rfl, hrest⟩
    obtain ⟨segment, others, rfl, rfl⟩ := (dotted_eq_cons hpath hdot hne).mp heq
    rcases (hnext _ hpath.tail).mp hrest with hread | hread
    · exact .inl (.one _ hread)
    · exact .inr (.one _ hread)
  · intro hreads
    have hsplit : ∃ any segment others, path = any :: segment :: others ∧
        (Reads "" (next :: glob) (segment :: others) ∨
          Reads "\n" (next :: glob) (segment :: others)) := by
      rcases hreads with hread | hread
      · cases hread with | one _ hread => exact ⟨_, _, _, rfl, .inl hread⟩
      · cases hread with | one _ hread => exact ⟨_, _, _, rfl, .inr hread⟩
    obtain ⟨any, segment, others, rfl, hread⟩ := hsplit
    obtain ⟨hne, hdot⟩ := hpath any List.mem_cons_self
    exact ⟨any.toList, _, rfl, by simpa using hne, hdot, _, rfl, (hnext _ hpath.tail).mpr hread⟩

theorem acceptsAs_many {segment : GlobSegment} (hmany : segment ≠ .many)
    (h : AcceptsAs (segment :: glob) parts) :
    AcceptsAs (.many :: segment :: glob) (.upstream :: parts) := by
  intro path hpath
  have hnext : ∃ next ∈ segment :: glob, next ≠ .many := ⟨segment, List.mem_cons_self, hmany⟩
  rw [accepts_upstream]
  constructor
  · rintro (hnone | ⟨before, rest, heq, hline, hrest⟩)
    · rcases (h path hpath).mp hnone with hread | hread
      · exact .inl (.many [] hnext (by simp) hread)
      · exact .inr (.many [] hnext (by simp) hread)
    -- the dot that the regex stops at is one between two segments
    · obtain ⟨taken, first, others, rfl, -, rfl, rfl⟩ := dotted_eq_append hpath heq
      have hrestPath : Segmented (first :: others) := fun other hother =>
        hpath other (List.mem_append_right taken hother)
      have hlines := (not_mem_dotted (by decide)).mp hline
      rcases (h _ hrestPath).mp hrest with hread | hread
      · exact .inl (.many taken hnext hlines hread)
      · exact .inr (.many taken hnext hlines hread)
  · intro hreads
    have hsplit : ∃ taken rest, path = taken ++ rest ∧
        (∀ other ∈ taken, '\n' ∉ other.toList) ∧
        (Reads "" (segment :: glob) rest ∨ Reads "\n" (segment :: glob) rest) := by
      rcases hreads with hread | hread
      · cases hread with
        | many taken _ hline hread => exact ⟨taken, _, rfl, hline, .inl hread⟩
        | lastMany hall => exact absurd (hall segment List.mem_cons_self) hmany
      · cases hread with
        | many taken _ hline hread => exact ⟨taken, _, rfl, hline, .inr hread⟩
        | lastMany hall => exact absurd (hall segment List.mem_cons_self) hmany
    obtain ⟨taken, rest, rfl, hline, hread⟩ := hsplit
    have hrestPath : Segmented rest := fun other hother =>
      hpath other (List.mem_append_right taken hother)
    have haccepts := (h rest hrestPath).mpr hread
    by_cases htaken : taken = []
    · subst htaken
      exact .inl haccepts
    · have hrest : rest ≠ [] := by
        rcases hread with hread | hread <;> exact hread.ne_nil hmany
      exact .inr ⟨_, _, dotted_append htaken hrest, (not_mem_dotted (by decide)).mpr hline, haccepts⟩

theorem accepts_compile (h : ∀ segment ∈ glob, segment.WellFormed) :
    (glob ≠ [] → AcceptsAs glob (compileTokens false (globTokens glob))) ∧
      AcceptsAs (.many :: glob) (compileTokens true (globTokens glob)) := by
  induction glob with
  | nil =>
    refine ⟨fun hne => absurd rfl hne, fun path _ => ?_⟩
    show accepts [.anything] (dotted path) = true ↔ _
    rw [accepts_anything, ← toList_intercalate]
    constructor
    · exact fun hline => .inl (.lastMany (by simp) hline)
    · rintro (hread | hread) <;> cases hread with
      | many _ hnext => simp at hnext
      | lastMany _ hline => exact hline
  | cons segment glob ih =>
    obtain ⟨ihGlob, ihMany⟩ := ih fun other hother => h other (List.mem_cons_of_mem _ hother)
    have hsegment := h segment List.mem_cons_self
    by_cases hmany : segment = .many
    · subst hmany
      rw [compile_many, compile_many]
      refine ⟨fun _ => ihMany, fun path hpath => ?_⟩
      rw [reads_many_many, reads_many_many]
      exact ihMany path hpath
    · have hfirst : AcceptsAs (segment :: glob) (segment.part :: partsBehind glob) := by
        cases glob with
        | nil =>
          cases segment with
          | literal text => exact acceptsAs_lastLiteral hsegment
          | one => exact acceptsAs_lastOne
          | many => exact absurd rfl hmany
        | cons next glob =>
          have hnext := ihGlob (List.cons_ne_nil next glob)
          cases segment with
          | literal text => exact acceptsAs_literal hsegment hnext
          | one => exact acceptsAs_one hnext
          | many => exact absurd rfl hmany
      rw [compile_segment false hsegment hmany, compile_segment true hsegment hmany]
      exact ⟨fun _ => hfirst, acceptsAs_many hmany hfirst⟩

end Accepts

/-- A glob's pattern matches a path when the glob reads it. -/
theorem pathMatches_iff_reads (glob : DottedGlob) (path : DottedPath) :
    pathMatches [glob.text] path.text = true ↔
      Reads "" glob.segments path.segments ∨ Reads "\n" glob.segments path.segments := by
  have htokens : tokenise [] glob.text.toList = globTokens glob.segments := by
    rw [DottedGlob.text, toList_intercalate, tokenise_glob glob.wellFormed]
  rw [pathMatches, List.any_cons, List.any_nil, Bool.or_false, globToRegex, htokens,
    path.toList_text]
  exact (accepts_compile glob.wellFormed).1 glob.nonempty path.segments path.wellFormed

/-! ## Reading and covering -/

theorem Reads.covers (h : Reads "" glob path) : Covers glob path := by
  induction h with
  | lastLiteral text =>
    rw [String.append_empty]
    exact .literal text .nil
  | lastOne segment => exact .one segment .nil
  | literal text _ ih => exact .literal text ih
  | one any _ ih => exact .one any ih
  | many taken _ _ _ ih => exact .many taken ih
  | @lastMany glob path hall _ =>
    rw [← List.append_nil path]
    refine .many path ?_
    clear * - hall
    induction glob with
    | nil => exact .nil
    | cons next glob ih =>
      obtain rfl := hall next List.mem_cons_self
      exact .many [] (ih fun other hother => hall other (List.mem_cons_of_mem _ hother))

theorem Reads.of_ending (h : Reads ending glob path) (other : String) :
    (∃ text, glob.getLast? = some (.literal text)) ∨ Reads other glob path := by
  induction h with
  | lastLiteral text => exact .inl ⟨text, rfl⟩
  | lastOne segment => exact .inr (.lastOne segment)
  | literal text _ ih =>
    rcases ih with ⟨last, hlast⟩ | hread
    · exact .inl ⟨last, by rwa [List.getLast?_cons_cons]⟩
    · exact .inr (.literal text hread)
  | one any _ ih =>
    rcases ih with ⟨last, hlast⟩ | hread
    · exact .inl ⟨last, by rwa [List.getLast?_cons_cons]⟩
    · exact .inr (.one any hread)
  | @many glob rest taken hnext hline hread ih =>
    rcases ih with ⟨last, hlast⟩ | hread
    · left
      cases glob with
      | nil => cases hlast
      | cons next glob => exact ⟨last, by rwa [List.getLast?_cons_cons]⟩
    · exact .inr (.many taken hnext hline hread)
  | lastMany hall hline => exact .inr (.lastMany hall hline)

theorem Covers.getLast (h : Covers glob path) {text : String}
    (hlast : glob.getLast? = some (.literal text)) : path.getLast? = some text := by
  induction h with
  | nil => cases hlast
  | @literal glob path first hcovers ih =>
    cases glob with
    | nil =>
      cases hcovers
      obtain rfl := GlobSegment.literal.inj (Option.some.inj hlast)
      rfl
    | cons next glob =>
      have hpath := ih (by rwa [List.getLast?_cons_cons] at hlast)
      simp [List.getLast?_cons, hpath]
  | @one glob path segment hcovers ih =>
    cases glob with
    | nil => cases hlast
    | cons next glob =>
      have hpath := ih (by rwa [List.getLast?_cons_cons] at hlast)
      simp [List.getLast?_cons, hpath]
  | @many glob rest taken hcovers ih =>
    cases glob with
    | nil => cases hlast
    | cons next glob =>
      have hpath := ih (by rwa [List.getLast?_cons_cons] at hlast)
      simp [List.getLast?_append, hpath]

theorem Reads.getLast (h : Reads ending glob path) {text : String}
    (hlast : glob.getLast? = some (.literal text)) : path.getLast? = some (text ++ ending) := by
  induction h with
  | lastLiteral first =>
    obtain rfl := GlobSegment.literal.inj (Option.some.inj hlast)
    rfl
  | lastOne => cases hlast
  | literal first _ ih | one first _ ih =>
    have hpath := ih (by rwa [List.getLast?_cons_cons] at hlast)
    rw [List.getLast?_cons_cons, hpath]
  | @many glob rest taken _ _ hread ih =>
    cases glob with
    | nil => cases hlast
    | cons next glob =>
      have hpath := ih (by rwa [List.getLast?_cons_cons] at hlast)
      simp [List.getLast?_append, hpath]
  | lastMany hall =>
    have hmem := List.mem_of_getLast? hlast
    rcases List.mem_cons.mp hmem with heq | hmem
    · cases heq
    · cases hall _ hmem

theorem EndsWithBreak.not_covers (h : EndsWithBreak glob path) : ¬ Covers glob path := by
  intro hcovers
  obtain ⟨⟨text, hlast⟩, hread⟩ := h
  have hsame := (hread.getLast hlast).symm.trans (hcovers.getLast hlast)
  have hlen := congrArg String.length (Option.some.inj hsame)
  simp [String.length_append] at hlen

/-! ## Paths of plain names -/

theorem Covers.ne_nil (h : Covers glob path)
    (hnext : ∃ next ∈ glob, next ≠ .many) : path ≠ [] := by
  induction h with
  | nil => simp at hnext
  | literal | one => exact List.cons_ne_nil _ _
  | many taken _ ih =>
    have hrest := ih (by simpa using hnext)
    simp [hrest]

theorem Covers.reads (h : Covers glob path) {last : GlobSegment}
    (hlast : glob.getLast? = some last) (hmany : last ≠ .many)
    (hlines : ∀ segment ∈ path, '\n' ∉ segment.toList) : Reads "" glob path := by
  have hbehind : ∀ {next : GlobSegment} {others : List GlobSegment},
      (next :: others).getLast? = some last → ∃ other ∈ next :: others, other ≠ .many :=
    fun hother => ⟨last, List.mem_of_getLast? hother, hmany⟩
  induction h with
  | nil => cases hlast
  | @literal glob path text hcovers ih =>
    cases glob with
    | nil =>
      cases hcovers
      simpa using (Reads.lastLiteral text : Reads "" [.literal text] [text ++ ""])
    | cons next glob =>
      rw [List.getLast?_cons_cons] at hlast
      have hread := ih hlast fun segment hsegment => hlines segment (List.mem_cons_of_mem _ hsegment)
      obtain ⟨segment, path, rfl⟩ := List.exists_cons_of_ne_nil (hcovers.ne_nil (hbehind hlast))
      exact .literal text hread
  | @one glob path any hcovers ih =>
    cases glob with
    | nil =>
      cases hcovers
      exact .lastOne any
    | cons next glob =>
      rw [List.getLast?_cons_cons] at hlast
      have hread := ih hlast fun segment hsegment => hlines segment (List.mem_cons_of_mem _ hsegment)
      obtain ⟨segment, path, rfl⟩ := List.exists_cons_of_ne_nil (hcovers.ne_nil (hbehind hlast))
      exact .one any hread
  | @many glob rest taken hcovers ih =>
    cases glob with
    | nil => exact absurd (Option.some.inj hlast).symm hmany
    | cons next glob =>
      rw [List.getLast?_cons_cons] at hlast
      refine .many taken (hbehind hlast) (fun segment hsegment => ?_) (ih hlast fun segment hsegment => ?_)
      · exact hlines segment (List.mem_append_left _ hsegment)
      · exact hlines segment (List.mem_append_right _ hsegment)

/-- **On a path without line breaks**, a glob that does not end in `**`, or has nothing else, matches as
its segments do. -/
theorem pathMatches_iff_covers (glob : DottedGlob) (path : DottedPath)
    (hlines : ∀ segment ∈ path.segments, '\n' ∉ segment.toList)
    (hend : glob.segments.getLast? ≠ some .many ∨ ∀ segment ∈ glob.segments, segment = .many) :
    pathMatches [glob.text] path.text = true ↔ Covers glob.segments path.segments := by
  rw [pathMatches_iff_reads]
  constructor
  · rintro (hread | hread)
    · exact hread.covers
    · rcases hread.of_ending "" with ⟨text, hlast⟩ | hread'
      · -- the path's last segment would end in the line break
        have hpath := hread.getLast hlast
        exact absurd (by simp) (hlines _ (List.mem_of_getLast? hpath))
      · exact hread'.covers
  · intro hcovers
    left
    rcases hend with hend | hall
    · obtain ⟨last, hlast⟩ := Option.isSome_iff_exists.mp (List.getLast?_isSome.mpr glob.nonempty)
      exact hcovers.reads hlast (fun hmany => hend (by rw [hlast, hmany])) hlines
    · obtain ⟨first, others, hglob⟩ := List.exists_cons_of_ne_nil glob.nonempty
      rw [hglob] at hall ⊢
      obtain rfl := hall first List.mem_cons_self
      refine .lastMany (fun next hnext => hall next (List.mem_cons_of_mem _ hnext)) (.inl ?_)
      rw [toList_intercalate]
      exact (not_mem_dotted (by decide)).mpr hlines

/-! ## Reading and covering compared -/

/-- **A glob read as it is meant.** The matcher agrees with the glob's meaning on a path exactly
where the compiled pattern reads every path the glob covers, and no line break ends the path. -/
theorem path_matches_iff (glob : DottedGlob) (path : DottedPath) :
    (pathMatches [glob.text] path.text = true ↔ Covers glob.segments path.segments) ↔
      ReadAsMeant glob.segments path.segments := by
  rw [pathMatches_iff_reads]
  constructor
  · intro hmeant
    refine ⟨fun hcovers => ?_, fun hbreak => ?_⟩
    · rcases hmeant.mpr hcovers with hread | hread
      · exact hread
      · rcases hread.of_ending "" with hlast | hread'
        · exact absurd hcovers (EndsWithBreak.not_covers ⟨hlast, hread⟩)
        · exact hread'
    · exact hbreak.not_covers (hmeant.mp (.inr hbreak.2))
  · rintro ⟨hkept, hbreak⟩
    refine ⟨?_, fun hcovers => .inl (hkept hcovers)⟩
    rintro (hread | hread)
    · exact hread.covers
    · rcases hread.of_ending "" with hlast | hread'
      · exact absurd ⟨hlast, hread⟩ hbreak
      · exact hread'.covers

/-- `credentials.**` and the path `credentials`. -/
theorem path_matches_not_exact : ¬ ∀ (glob : DottedGlob) (path : DottedPath),
    pathMatches [glob.text] path.text = true ↔ Covers glob.segments path.segments := by
  intro h
  let glob : DottedGlob := ⟨[.literal "credentials", .many], by simp, by
    simp [GlobSegment.WellFormed]⟩
  let path : DottedPath := ⟨["credentials"], by simp⟩
  have hcovers : Covers glob.segments path.segments := .literal "credentials" (.many [] .nil)
  have hmatch := (h glob path).mpr hcovers
  have hnot : pathMatches ["credentials.**"] "credentials" = false := by decide +kernel
  exact absurd hmatch (by
    show ¬ pathMatches ["credentials.**"] "credentials" = true
    rw [hnot]
    exact Bool.false_ne_true)

end Meho.Redaction
