import Mathlib.Algebra.GroupWithZero.Nat
import Meho.Approval.Delegation

/- What a run of the atomic-apply script prints, and what is read back
(connectors/bind9/_atomic.py).

The script prints the slice before the change, then either the failed step with its detail
or the slice after the change and a success line. Contents stand between sentinel lines and
are not escaped, so a content line that is a sentinel itself is taken for one. No other line
is lost, whatever it ends with (`steps_recovered_iff`).

Texts are what the parser gets: the transport has decoded them. A rollback prints nothing
and is taken to return. The script also ends without a word when `tar` or one of the two
`cat`s fails, since it runs under `set -e`.

Correspondence: `_PIPELINE_TEMPLATE` (its `echo`s, `cat`s and `printf`s) ↔
`Run.stdout`; `str.splitlines(keepends=True)` ↔ `splitLinesKeep`; what is not
listed keeps its name. -/
namespace Meho.Bind9.PipelineOutput
open Meho.Approval (isLineBoundary strip)

abbrev Text := List Char

/-! ## Lines -/

def consLine (c : Char) : List Text → List Text
  | [] => [[c]]
  | line :: lines => (c :: line) :: lines

/-- `str.splitlines(keepends=True)`. -/
def splitLinesKeep : Text → List Text
  | [] => []
  | '\r' :: '\n' :: rest => ['\r', '\n'] :: splitLinesKeep rest
  | c :: rest =>
    if isLineBoundary c then [c] :: splitLinesKeep rest
    else consLine c (splitLinesKeep rest)

/-- `line.rstrip("\r\n")`. -/
def rstripEol (line : Text) : Text :=
  (line.reverse.dropWhile fun c => c = '\r' || c = '\n').reverse

/-- `echo`, and a `cat` with the `printf '\n'` after it. -/
def echo (text : Text) : Text := text ++ ['\n']

theorem flatten_consLine (c : Char) (lines : List Text) :
    (consLine c lines).flatten = c :: lines.flatten := by
  cases lines <;> rfl

theorem flatten_splitLinesKeep (text : Text) : (splitLinesKeep text).flatten = text := by
  fun_induction splitLinesKeep text with
  | case1 => rfl
  | case2 rest ih | case3 c rest _ _ ih => rw [List.flatten_cons, ih]; rfl
  | case4 c rest _ _ ih => rw [flatten_consLine, ih]

/-! ## The parser -/

/-- What the parser takes a line for. -/
inductive LineKind where
  | failedStep (name : Text)
  | success
  | opens (name : Text)
  | closes
  | content
  deriving DecidableEq

def classify (line : Text) : LineKind :=
  let stripped := rstripEol line
  if "===FAILED_STEP===".toList.isPrefixOf stripped then .failedStep (strip (stripped.drop 17))
  else if stripped = "===SUCCESS===".toList then .success
  else if "===".toList.isPrefixOf stripped && "_BEGIN===".toList.isSuffixOf stripped then
    .opens ((stripped.drop 3).take (stripped.length - 3 - 9))
  else if "===".toList.isPrefixOf stripped && "_END===".toList.isSuffixOf stripped then .closes
  else .content

abbrev Sections := Text → Option Text

def Sections.set (sections : Sections) (name body : Text) : Sections :=
  fun other => if other = name then some body else sections other

@[simp] theorem Sections.set_self (sections : Sections) (name body : Text) :
    sections.set name body name = some body := if_pos rfl

variable {body : Text}

theorem Sections.set_of_ne {sections : Sections} {name other : Text} (h : other ≠ name) :
    sections.set name body other = sections other := if_neg h

theorem Sections.set_same {sections : Sections} {name : Text} (h : sections name = some body) :
    sections.set name body = sections := by
  funext other
  unfold Sections.set
  split <;> simp_all

@[simp] theorem Sections.set_set (sections : Sections) (name first second : Text) :
    (sections.set name first).set name second = sections.set name second := by
  funext other
  unfold Sections.set
  split <;> rfl

/-- The parser's variables between two lines. -/
structure Parse where
  sections : Sections := fun _ => none
  current : Option Text := none
  failedStep : Option Text := none
  sawSuccess : Bool := false

/-- One pass of the loop. -/
def Parse.line (p : Parse) (raw : Text) : Parse :=
  match classify raw with
  | .failedStep name => { p with failedStep := some name }
  | .success => { p with sawSuccess := true }
  | .opens name =>
    { p with current := some name, sections := p.sections.set name [] }
  | .closes => { p with current := none }
  | .content =>
    match p.current with
    | none => p
    | some name =>
      { p with sections := p.sections.set name ((p.sections name).getD [] ++ raw) }

def keyStateBefore : Text := "STATE_BEFORE".toList
def keyStateAfter : Text := "STATE_AFTER".toList
def keyFailedDetail : Text := "FAILED_DETAIL".toList
def keyFailedStep : Text := "FAILED_STEP".toList
def keySuccess : Text := "SUCCESS".toList

/-- The sections whose last line feed is the script's. -/
def bookended : List Text := [keyStateBefore, keyStateAfter, keyFailedDetail]

def stripOneNewline (body : Text) : Text :=
  if body.getLast? = some '\n' then body.dropLast else body

def Parse.result (p : Parse) : Sections :=
  let result : Sections := fun name =>
    if name ∈ bookended then (p.sections name).map stripOneNewline else p.sections name
  let result := match p.failedStep with
    | some step => result.set keyFailedStep step
    | none => result
  if p.sawSuccess then result.set keySuccess [] else result

def parsePipelineOutput (stdout : Text) : Sections :=
  ((splitLinesKeep stdout).foldl Parse.line {}).result

inductive AtomicApplyStep where
  | snapshot
  | stage
  | checkconf
  | reload
  | verify
  deriving DecidableEq

def AtomicApplyStep.name : AtomicApplyStep → Text
  | snapshot => "snapshot".toList
  | stage => "stage".toList
  | checkconf => "checkconf".toList
  | reload => "reload".toList
  | verify => "verify".toList

/-- The step of that name, else the most cautious one. -/
def AtomicApplyStep.narrow (raw : Text) : AtomicApplyStep :=
  ([snapshot, stage, checkconf, reload, verify].find? fun s => s.name = raw).getD checkconf

/-- The apply was rolled back at `step`. -/
structure AtomicApplyError where
  step : AtomicApplyStep
  detail : Text
  deriving DecidableEq

structure AtomicApplyResult where
  stateBefore : Text
  stateAfter : Text
  auditSlicePath : Text
  deriving DecidableEq

def interpretPipelineResult (stdout stderr auditSlicePath : Text) :
    Except AtomicApplyError AtomicApplyResult :=
  let sections := parsePipelineOutput stdout
  match sections keyFailedStep with
  | some raw => .error ⟨.narrow raw, (sections keyFailedDetail).getD []⟩
  | none =>
    match sections keySuccess with
    | none =>
      .error ⟨.snapshot, if stderr ≠ [] then stderr
        else if stdout ≠ [] then stdout else "no output".toList⟩
    | some _ =>
      .ok ⟨(sections keyStateBefore).getD [], (sections keyStateAfter).getD [],
        auditSlicePath⟩

/-! ## The script -/

/-- The steps of the script. -/
inductive PipelineStep where
  | snapshot
  | stateBefore
  | stage
  | checkconf
  | reload
  | verify
  | stateAfter
  deriving DecidableEq

/-- The steps whose failure the script catches and prints. -/
inductive CaughtStep where
  | stage
  | checkconf
  | reload
  | verify
  deriving DecidableEq

def CaughtStep.applyStep : CaughtStep → AtomicApplyStep
  | stage => .stage
  | checkconf => .checkconf
  | reload => .reload
  | verify => .verify

def AtomicApplyStep.pipelineStep : AtomicApplyStep → PipelineStep
  | snapshot => .snapshot
  | stage => .stage
  | checkconf => .checkconf
  | reload => .reload
  | verify => .verify

/-- How a run of the script ends. A slice that does not exist has the empty content, `read` is
what a `cat` printed before it failed and `detail` the output of the failed command. -/
inductive Run where
  | snapshotFailed
  | beforeFailed (read : Text)
  | failed (before : Text) (step : CaughtStep) (detail : Text)
  | afterFailed (before read : Text)
  | succeeded (before after : Text)

def opening (name : Text) : Text := echo ("===".toList ++ name ++ "_BEGIN===".toList)

def closing (name : Text) : Text := echo ("===".toList ++ name ++ "_END===".toList)

def bracket (name body : Text) : Text := opening name ++ (echo body ++ closing name)

def failedStepLine (step : CaughtStep) : Text :=
  echo ("===FAILED_STEP===".toList ++ step.applyStep.name)

def Run.stdout : Run → Text
  | snapshotFailed => []
  | beforeFailed read => opening keyStateBefore ++ read
  | failed before step detail =>
    bracket keyStateBefore before ++
      (failedStepLine step ++ bracket keyFailedDetail detail)
  | afterFailed before read =>
    bracket keyStateBefore before ++ (opening keyStateAfter ++ read)
  | succeeded before after =>
    bracket keyStateBefore before ++
      (bracket keyStateAfter after ++ echo "===SUCCESS===".toList)

/-! ## What reading back should give -/

def Run.before? : Run → Option Text
  | failed before _ _ => some before
  | afterFailed before _ => some before
  | succeeded before _ => some before
  | _ => none

def Run.after? : Run → Option Text
  | succeeded _ after => some after
  | _ => none

/-- The step that failed and what it said; nothing for a run that reached its last line. -/
def Run.failure? (stderr : Text) : Run → Option (PipelineStep × Text)
  | snapshotFailed => some (.snapshot, stderr)
  | beforeFailed _ => some (.stateBefore, stderr)
  | failed _ step detail => some (step.applyStep.pipelineStep, detail)
  | afterFailed _ _ => some (.stateAfter, stderr)
  | succeeded _ _ => none

/-- Decoding the run's output gives the states, success exactly when the run succeeded, and
else the step that failed with its detail. -/
structure Recovers (run : Run) (stderr path : Text) : Prop where
  before : ∀ text, run.before? = some text →
    parsePipelineOutput run.stdout keyStateBefore = some text
  after : ∀ text, run.after? = some text →
    parsePipelineOutput run.stdout keyStateAfter = some text
  report : match run.failure? stderr, interpretPipelineResult run.stdout stderr path with
    | none, .ok result =>
      run.before? = some result.stateBefore ∧ run.after? = some result.stateAfter ∧
        result.auditSlicePath = path
    | some (step, detail), .error e => e.step.pipelineStep = step ∧ e.detail = detail
    | _, _ => False

/-- No line of a text is a sentinel when it is printed. -/
def Plain (text : Text) : Prop := ∀ line ∈ splitLinesKeep (echo text), classify line = .content

instance (text : Text) : Decidable (Plain text) := inferInstanceAs (Decidable (∀ _ ∈ _, _))

/-- The texts a run prints between sentinels are plain, and it did not stop at one of the two
`cat`s, nor at the snapshot without a message. -/
def Run.Readable (stderr : Text) : Run → Prop
  | snapshotFailed => stderr ≠ []
  | beforeFailed _ => False
  | failed before _ detail => Plain before ∧ Plain detail
  | afterFailed _ _ => False
  | succeeded before after => Plain before ∧ Plain after

/-! ## Plain contents are read back -/

@[simp] theorem stripOneNewline_echo (text : Text) : stripOneNewline (echo text) = text := by
  simp [stripOneNewline, echo]

theorem flatten_lines (text : Text) : (splitLinesKeep (echo text)).flatten = echo text :=
  flatten_splitLinesKeep (echo text)

variable {text : Text}

theorem splitLinesKeep_ne_nil (h : text ≠ []) : splitLinesKeep text ≠ [] := by
  intro hnil
  have := flatten_splitLinesKeep text
  rw [hnil] at this
  exact h this.symm

theorem consLine_append {c : Char} {lines more : List Text} (h : lines ≠ []) :
    consLine c (lines ++ more) = consLine c lines ++ more := by
  cases lines with
  | nil => exact absurd rfl h
  | cons line lines => rfl

/-- A line feed ends its line whatever follows, so what comes after it is split by itself. -/
theorem splitLinesKeep_echo (text rest : Text) :
    splitLinesKeep (echo text ++ rest) = splitLinesKeep (echo text) ++ splitLinesKeep rest := by
  have hlf : isLineBoundary '\n' = true := by decide
  fun_induction splitLinesKeep text with
  | case1 => simp [echo, splitLinesKeep, hlf]
  | case2 text ih =>
    simp only [echo, List.cons_append, splitLinesKeep] at ih ⊢
    rw [ih]
  | case3 c text hne hc ih =>
    by_cases hcr : c = '\r' ∧ text = []
    -- a carriage return before the added line feed ends one line with it
    · obtain ⟨rfl, rfl⟩ := hcr
      simp [echo, splitLinesKeep]
    · have hne' : ∀ more after, c = '\r' → echo text ++ more = '\n' :: after → False := by
        intro more after hcr' hafter
        cases text with
        | nil => exact hcr ⟨hcr', rfl⟩
        | cons d text =>
          injection hafter with hd _
          exact hne text hcr' (by rw [hd])
      have hsplit : ∀ more, splitLinesKeep (c :: (echo text ++ more)) =
          [c] :: splitLinesKeep (echo text ++ more) := by
        intro more
        rw [splitLinesKeep, if_pos hc]
        exact fun after h1 h2 => hne' more after h1 h2
      have hnone := hsplit []
      rw [List.append_nil] at hnone
      change splitLinesKeep (c :: (echo text ++ rest)) = splitLinesKeep (c :: echo text) ++ _
      rw [hsplit, hnone, ih]
      rfl
  | case4 c text hne hc ih =>
    have hcr : c ≠ '\r' := by
      rintro rfl
      exact hc (by decide)
    have hsplit : ∀ more, splitLinesKeep (c :: more) = consLine c (splitLinesKeep more) := by
      intro more
      rw [splitLinesKeep, if_neg hc]
      exact fun after h _ => hcr h
    change splitLinesKeep (c :: (echo text ++ rest)) = splitLinesKeep (c :: echo text) ++ _
    rw [hsplit, hsplit, ih]
    exact consLine_append (splitLinesKeep_ne_nil (by simp [echo]))

variable {p : Parse}

theorem fold_content {lines : List Text} (hlines : ∀ line ∈ lines, classify line = .content)
    {name : Text} (hcurrent : p.current = some name) (hbody : p.sections name = some body) :
    lines.foldl Parse.line p =
      { p with sections := p.sections.set name (body ++ lines.flatten) } := by
  induction lines generalizing p body with
  | nil => simp [Sections.set_same hbody]
  | cons line lines ih =>
    have hline : p.line line = { p with sections := p.sections.set name (body ++ line) } := by
      simp [Parse.line, hlines line List.mem_cons_self, hcurrent, hbody]
    have hnext : (p.line line).sections name = some (body ++ line) := by simp [hline]
    have hstill : (p.line line).current = some name := by simp [hline, hcurrent]
    rw [List.foldl_cons,
      ih (fun l hl => hlines l (List.mem_cons_of_mem _ hl)) hstill hnext, hline]
    simp

/-- The lines of a bracketed text, and what the markers around it are taken for. -/
structure Bracketing (name : Text) : Prop where
  opening_line : splitLinesKeep (opening name) = [opening name]
  closing_line : splitLinesKeep (closing name) = [closing name]
  opens : classify (opening name) = .opens name
  closes : classify (closing name) = .closes

theorem bracketing_stateBefore : Bracketing keyStateBefore :=
  ⟨by decide, by decide, by decide, by decide⟩

theorem bracketing_stateAfter : Bracketing keyStateAfter :=
  ⟨by decide, by decide, by decide, by decide⟩

theorem bracketing_failedDetail : Bracketing keyFailedDetail :=
  ⟨by decide, by decide, by decide, by decide⟩

theorem Bracketing.lines {name : Text} (h : Bracketing name) (body rest : Text) :
    splitLinesKeep (bracket name body ++ rest) =
      opening name :: (splitLinesKeep (echo body) ++ closing name :: splitLinesKeep rest) := by
  have hopening := h.opening_line
  have hclosing := h.closing_line
  rw [opening] at hopening
  rw [closing] at hclosing
  have hsplit : bracket name body ++ rest =
      opening name ++ (echo body ++ (closing name ++ rest)) := by
    simp only [bracket, List.append_assoc]
  rw [hsplit, opening, closing, splitLinesKeep_echo, splitLinesKeep_echo, splitLinesKeep_echo,
    hopening, hclosing]
  rfl

theorem Bracketing.fold {name : Text} (h : Bracketing name) (hplain : Plain body) (rest : Text)
    (p : Parse) :
    (splitLinesKeep (bracket name body ++ rest)).foldl Parse.line p =
      (splitLinesKeep rest).foldl Parse.line
        { p with current := none, sections := p.sections.set name (echo body) } := by
  have hopen : p.line (opening name) =
      { p with current := some name, sections := p.sections.set name [] } := by
    simp [Parse.line, h.opens]
  rw [h.lines, List.foldl_cons, hopen, List.foldl_append,
    fold_content hplain rfl (Sections.set_self ..), List.foldl_cons, flatten_lines]
  congr 1
  simp [Parse.line, h.closes]

theorem failedStepLine_lines (step : CaughtStep) :
    splitLinesKeep (failedStepLine step) = [failedStepLine step] := by
  cases step <;> decide

theorem classify_failedStepLine (step : CaughtStep) :
    classify (failedStepLine step) = .failedStep step.applyStep.name := by
  cases step <;> decide

theorem narrow_name (step : AtomicApplyStep) : AtomicApplyStep.narrow step.name = step := by
  cases step <;> decide

theorem failedStepLine_fold (step : CaughtStep) (rest : Text) (p : Parse) :
    (splitLinesKeep (failedStepLine step ++ rest)).foldl Parse.line p =
      (splitLinesKeep rest).foldl Parse.line
        { p with failedStep := some step.applyStep.name } := by
  have hlines := failedStepLine_lines step
  rw [failedStepLine] at hlines ⊢
  rw [splitLinesKeep_echo, hlines, ← failedStepLine, List.cons_append, List.nil_append,
    List.foldl_cons]
  simp [Parse.line, classify_failedStepLine]

variable {before : Text}

theorem parse_failed {detail : Text} (hbefore : Plain before) (hdetail : Plain detail)
    (step : CaughtStep) :
    parsePipelineOutput (Run.failed before step detail).stdout = Parse.result
      { sections := Sections.set (Sections.set (fun _ => none) keyStateBefore (echo before)) keyFailedDetail
          (echo detail)
        failedStep := some step.applyStep.name } := by
  have hend := bracketing_failedDetail.fold hdetail []
    { sections := Sections.set (fun _ => none) keyStateBefore (echo before)
      failedStep := some step.applyStep.name }
  rw [List.append_nil] at hend
  rw [parsePipelineOutput, Run.stdout, bracketing_stateBefore.fold hbefore, failedStepLine_fold,
    hend]
  rfl

theorem parse_succeeded {after : Text} (hbefore : Plain before) (hafter : Plain after) :
    parsePipelineOutput (Run.succeeded before after).stdout = Parse.result
      { sections := Sections.set (Sections.set (fun _ => none) keyStateBefore (echo before)) keyStateAfter
          (echo after)
        sawSuccess := true } := by
  have hlast : splitLinesKeep (echo "===SUCCESS===".toList) = [echo "===SUCCESS===".toList] := by
    decide
  have hkind : classify (echo "===SUCCESS===".toList) = .success := by decide
  rw [parsePipelineOutput, Run.stdout, bracketing_stateBefore.fold hbefore,
    bracketing_stateAfter.fold hafter, hlast, List.foldl_cons, List.foldl_nil, Parse.line, hkind]

theorem result_bookended {name : Text} (hname : name ∈ bookended) (p : Parse) :
    p.result name = (p.sections name).map stripOneNewline := by
  have hstep : name ≠ keyFailedStep := by
    rintro rfl
    exact absurd hname (by decide)
  have hsuccess : name ≠ keySuccess := by
    rintro rfl
    exact absurd hname (by decide)
  unfold Parse.result
  cases p.failedStep <;> cases p.sawSuccess <;>
    simp [hname, Sections.set_of_ne hstep, Sections.set_of_ne hsuccess]

theorem result_echo {name : Text} (hname : name ∈ bookended)
    (h : p.sections name = some (echo text)) : p.result name = some text := by
  rw [result_bookended hname, h, Option.map_some, stripOneNewline_echo]

/-- The line of a failed step is read back, and there is none without it unless a section has
its name. -/
theorem result_failedStep (h : p.failedStep.isSome ∨ p.sections keyFailedStep = none) :
    p.result keyFailedStep = p.failedStep := by
  have hother : keyFailedStep ≠ keySuccess := by decide
  have hplain : keyFailedStep ∉ bookended := by decide
  unfold Parse.result
  cases hstep : p.failedStep with
  | none =>
    have hnone : p.sections keyFailedStep = none := by simpa [hstep] using h
    cases p.sawSuccess <;> simp [Sections.set_of_ne hother, hplain, hnone]
  | some name => cases p.sawSuccess <;> simp [Sections.set_of_ne hother]

theorem result_success (h : p.sawSuccess = true) : p.result keySuccess = some [] := by
  simp [Parse.result, h]

theorem recovers_failed {detail : Text} (hbefore : Plain before) (hdetail : Plain detail)
    (step : CaughtStep) (stderr path : Text) :
    Recovers (.failed before step detail) stderr path := by
  have hparse := parse_failed hbefore hdetail step
  have hne : keyStateBefore ≠ keyFailedDetail := by decide
  constructor
  · rintro text ⟨⟩
    rw [hparse]
    exact result_echo (by decide) (by simp [Sections.set_of_ne hne])
  · rintro text ⟨⟩
  · have hstep : parsePipelineOutput (Run.failed before step detail).stdout keyFailedStep =
        some step.applyStep.name := by
      rw [hparse, result_failedStep (.inr rfl)]
    have hread : parsePipelineOutput (Run.failed before step detail).stdout keyFailedDetail =
        some detail := by
      rw [hparse]
      exact result_echo (by decide) (by simp)
    have hreport : interpretPipelineResult (Run.failed before step detail).stdout stderr path =
        .error ⟨step.applyStep, detail⟩ := by
      simp only [interpretPipelineResult, hstep, hread, narrow_name, Option.getD_some]
    simp [hreport, Run.failure?]

theorem recovers_succeeded {after : Text} (hbefore : Plain before) (hafter : Plain after)
    (stderr path : Text) : Recovers (.succeeded before after) stderr path := by
  have hparse := parse_succeeded hbefore hafter
  have hne : keyStateBefore ≠ keyStateAfter := by decide
  have hreadBefore : parsePipelineOutput (Run.succeeded before after).stdout keyStateBefore =
      some before := by
    rw [hparse]
    exact result_echo (by decide) (by simp [Sections.set_of_ne hne])
  have hreadAfter : parsePipelineOutput (Run.succeeded before after).stdout keyStateAfter =
      some after := by
    rw [hparse]
    exact result_echo (by decide) (by simp)
  constructor
  · rintro text ⟨⟩
    exact hreadBefore
  · rintro text ⟨⟩
    exact hreadAfter
  · have hstep : parsePipelineOutput (Run.succeeded before after).stdout keyFailedStep = none := by
      rw [hparse, result_failedStep (.inr rfl)]
    have hsuccess : parsePipelineOutput (Run.succeeded before after).stdout keySuccess =
        some [] := by
      rw [hparse, result_success rfl]
    have hreport : interpretPipelineResult (Run.succeeded before after).stdout stderr path =
        .ok ⟨before, after, path⟩ := by
      simp only [interpretPipelineResult, hstep, hsuccess, hreadBefore, hreadAfter,
        Option.getD_some]
    simp [hreport, Run.failure?, Run.before?, Run.after?]

/-! ## Nothing more is read back -/

/-- The characters of the lines that are no sentinels. -/
def contentLength (lines : List Text) : Nat :=
  (lines.map fun line => if classify line = .content then line.length else 0).sum

def sectionLength (sections : Sections) (name : Text) : Nat :=
  ((sections name).getD []).length

variable {a b : Text}

theorem line_length (hab : a ≠ b) (p : Parse) (raw : Text) :
    sectionLength (p.line raw).sections a + sectionLength (p.line raw).sections b ≤
      sectionLength p.sections a + sectionLength p.sections b +
        if classify raw = .content then raw.length else 0 := by
  have hgrow : ∀ (name body : Text) (extra : Nat),
      body.length ≤ sectionLength p.sections name + extra →
      sectionLength (p.sections.set name body) a + sectionLength (p.sections.set name body) b ≤
        sectionLength p.sections a + sectionLength p.sections b + extra := by
    intro name body extra hbody
    unfold sectionLength at hbody ⊢
    by_cases ha : a = name
    · have hb : b ≠ name := fun hb => hab (ha.trans hb.symm)
      subst ha
      rw [Sections.set_self, Sections.set_of_ne hb, Option.getD_some]
      omega
    · rw [Sections.set_of_ne ha]
      by_cases hb : b = name
      · subst hb
        rw [Sections.set_self, Option.getD_some]
        omega
      · rw [Sections.set_of_ne hb]
        omega
  unfold Parse.line
  cases hkind : classify raw with
  | failedStep name => simp
  | success => simp
  | opens name => exact hgrow name [] _ (Nat.zero_le _)
  | closes => simp
  | content =>
    cases hcurrent : p.current with
    | none => simp
    | some name =>
      refine hgrow name _ _ ?_
      simp [sectionLength]

theorem fold_length (hab : a ≠ b) (lines : List Text) (p : Parse) :
    sectionLength (lines.foldl Parse.line p).sections a +
        sectionLength (lines.foldl Parse.line p).sections b ≤
      sectionLength p.sections a + sectionLength p.sections b + contentLength lines := by
  induction lines generalizing p with
  | nil => simp [contentLength]
  | cons line lines ih =>
    have hrest := ih (p.line line)
    have hline := line_length hab p line
    have hsum : contentLength (line :: lines) =
        (if classify line = .content then line.length else 0) + contentLength lines := rfl
    rw [List.foldl_cons, hsum]
    omega

/-- A sentinel starts with three equals signs. -/
theorem three_le_length {line : Text} (h : classify line ≠ .content) : 3 ≤ line.length := by
  have hstrip : (rstripEol line).length ≤ line.length := by
    have := (List.dropWhile_sublist (fun c => c = '\r' || c = '\n') (l := line.reverse)).length_le
    simpa [rstripEol] using this
  have hprefix : "===".toList <+: rstripEol line := by
    unfold classify at h
    simp only at h
    split at h
    · rename_i hstep
      exact (by decide : "===".toList <+: "===FAILED_STEP===".toList).trans
        (List.isPrefixOf_iff_prefix.1 hstep)
    · split at h
      · rename_i hsuccess
        rw [hsuccess]
        decide
      · split at h
        · rename_i hopens
          simp only [Bool.and_eq_true, List.isPrefixOf_iff_prefix] at hopens
          exact hopens.1
        · split at h
          · rename_i hcloses
            simp only [Bool.and_eq_true, List.isPrefixOf_iff_prefix] at hcloses
            exact hcloses.1
          · exact absurd rfl h
  exact Nat.le_trans hprefix.length_le hstrip

theorem contentLength_append (front back : List Text) :
    contentLength (front ++ back) = contentLength front + contentLength back := by
  simp [contentLength]

theorem contentLength_le (lines : List Text) : contentLength lines ≤ lines.flatten.length := by
  induction lines with
  | nil => simp [contentLength]
  | cons line lines ih =>
    simp only [contentLength, List.map_cons, List.sum_cons, List.flatten_cons,
      List.length_append] at ih ⊢
    split <;> omega

/-- A sentinel among the lines is missing from the content. -/
theorem contentLength_lost {lines : List Text} {line : Text} (hmem : line ∈ lines)
    (hkind : classify line ≠ .content) : contentLength lines + 3 ≤ lines.flatten.length := by
  obtain ⟨front, back, rfl⟩ := List.append_of_mem hmem
  have hfront := contentLength_le front
  have hback := contentLength_le back
  have hline := three_le_length hkind
  have hsum : contentLength (line :: back) = contentLength back := by
    simp [contentLength, hkind]
  rw [contentLength_append, hsum]
  simp only [List.flatten_append, List.flatten_cons, List.length_append]
  omega

theorem contentLength_text (text : Text) :
    contentLength (splitLinesKeep (echo text)) ≤ text.length + 1 := by
  have := contentLength_le (splitLinesKeep (echo text))
  rw [flatten_lines] at this
  simpa [echo] using this

theorem plain_of_contentLength (h : text.length ≤ contentLength (splitLinesKeep (echo text)) + 1) :
    Plain text := by
  intro line hmem
  by_contra hkind
  have := contentLength_lost hmem hkind
  have hlength : (echo text).length = text.length + 1 := by simp [echo]
  rw [flatten_lines] at this
  omega

theorem contentLength_bracket {name : Text} (h : Bracketing name) (body rest : Text) :
    contentLength (splitLinesKeep (bracket name body ++ rest)) =
      contentLength (splitLinesKeep (echo body)) + contentLength (splitLinesKeep rest) := by
  have hopen : contentLength [opening name] = 0 := by simp [contentLength, h.opens]
  have hclose : contentLength [closing name] = 0 := by
    simp [contentLength, h.closes]
  rw [h.lines, ← List.singleton_append, contentLength_append, hopen, Nat.zero_add,
    contentLength_append, ← List.singleton_append, contentLength_append, hclose, Nat.zero_add]

theorem contentLength_succeeded (before after : Text) :
    contentLength (splitLinesKeep (Run.succeeded before after).stdout) =
      contentLength (splitLinesKeep (echo before)) +
        contentLength (splitLinesKeep (echo after)) := by
  have hlast : contentLength (splitLinesKeep (echo "===SUCCESS===".toList)) = 0 := by decide
  rw [Run.stdout, contentLength_bracket bracketing_stateBefore,
    contentLength_bracket bracketing_stateAfter, hlast]
  rfl

theorem contentLength_failed (before detail : Text) (step : CaughtStep) :
    contentLength (splitLinesKeep (Run.failed before step detail).stdout) =
      contentLength (splitLinesKeep (echo before)) +
        contentLength (splitLinesKeep (echo detail)) := by
  have hline : contentLength (splitLinesKeep (failedStepLine step)) = 0 := by
    cases step <;> decide
  have hend := contentLength_bracket bracketing_failedDetail detail []
  rw [List.append_nil] at hend
  rw [Run.stdout, contentLength_bracket bracketing_stateBefore, failedStepLine, splitLinesKeep_echo,
    contentLength_append, ← failedStepLine, hline, hend]
  simp [contentLength, splitLinesKeep]

theorem result_length {name : Text} (hname : name ∈ bookended) (h : p.result name = some text) :
    text.length ≤ sectionLength p.sections name := by
  rw [result_bookended hname] at h
  obtain ⟨body, hbody, rfl⟩ := Option.map_eq_some_iff.1 h
  unfold sectionLength stripOneNewline
  rw [hbody]
  split <;> simp

theorem recovered_le {stdout first second : Text} (hab : a ≠ b) (ha : a ∈ bookended)
    (hb : b ∈ bookended) (hfirst : parsePipelineOutput stdout a = some first)
    (hsecond : (parsePipelineOutput stdout b).getD [] = second) :
    first.length + second.length ≤ contentLength (splitLinesKeep stdout) := by
  have hfold := fold_length hab (splitLinesKeep stdout) {}
  have h1 := result_length ha hfirst
  have h2 : second.length ≤
      sectionLength ((splitLinesKeep stdout).foldl Parse.line {}).sections b := by
    cases hsome : parsePipelineOutput stdout b with
    | none =>
      rw [hsome] at hsecond
      subst hsecond
      exact Nat.zero_le _
    | some text =>
      rw [hsome] at hsecond
      subst hsecond
      exact result_length hb hsome
  have hnone : ∀ name, sectionLength ({} : Parse).sections name = 0 := fun _ => rfl
  rw [hnone, hnone] at hfold
  omega

theorem plain_both
    (h : before.length + text.length ≤ contentLength (splitLinesKeep (echo before)) + contentLength (splitLinesKeep (echo text))) :
    Plain before ∧ Plain text := by
  have hbefore := contentLength_text before
  have htext := contentLength_text text
  exact ⟨plain_of_contentLength (by omega), plain_of_contentLength (by omega)⟩

/-! ## A caught failure is always seen -/

theorem line_failedStep (p : Parse) (raw : Text) (h : p.failedStep.isSome) :
    (p.line raw).failedStep.isSome := by
  unfold Parse.line
  cases classify raw with
  | content => cases p.current <;> exact h
  | failedStep name => rfl
  | success => exact h
  | opens name => exact h
  | closes => exact h

theorem fold_failedStep (lines : List Text) (p : Parse) (h : p.failedStep.isSome) :
    (lines.foldl Parse.line p).failedStep.isSome := by
  induction lines generalizing p with
  | nil => exact h
  | cons line lines ih => exact ih _ (line_failedStep p line h)

theorem failed_seen (before detail : Text) (step : CaughtStep) :
    (parsePipelineOutput (Run.failed before step detail).stdout keyFailedStep).isSome := by
  have hfold : ((splitLinesKeep (Run.failed before step detail).stdout).foldl Parse.line
      {}).failedStep.isSome := by
    rw [Run.stdout, bracketing_stateBefore.lines, List.foldl_cons, List.foldl_append,
      List.foldl_cons, failedStepLine_fold]
    exact fold_failedStep _ _ rfl
  rw [parsePipelineOutput, result_failedStep (.inl hfold)]
  exact hfold

/-! ## The round trip -/

theorem readable_of_recovers {run : Run} {stderr path : Text} (h : Recovers run stderr path) :
    run.Readable stderr := by
  have hreport := h.report
  cases run with
  | snapshotFailed =>
    rintro rfl
    have hempty : interpretPipelineResult [] [] path = .error ⟨.snapshot, "no output".toList⟩ := rfl
    simp [Run.failure?, Run.stdout, hempty] at hreport
  | beforeFailed read | afterFailed before read =>
    simp only [Run.failure?] at hreport
    split at hreport
    · simp_all
    · rename_i e hnone _
      obtain ⟨step, detail⟩ := e
      cases hnone
      cases step <;> simp [AtomicApplyStep.pipelineStep] at hreport
    · exact hreport
  | failed before step detail =>
    obtain ⟨raw, hraw⟩ := Option.isSome_iff_exists.1 (failed_seen before detail step)
    have hdetail : (parsePipelineOutput (Run.failed before step detail).stdout
        keyFailedDetail).getD [] = detail := by
      simp only [Run.failure?, interpretPipelineResult, hraw] at hreport
      exact hreport.2
    have hle := recovered_le (by decide) (by decide) (by decide) (h.before before rfl) hdetail
    rw [contentLength_failed] at hle
    exact plain_both hle
  | succeeded before after =>
    have hafter : (parsePipelineOutput (Run.succeeded before after).stdout
        keyStateAfter).getD [] = after := by
      rw [h.after after rfl]
      rfl
    have hle := recovered_le (by decide) (by decide) (by decide) (h.before before rfl) hafter
    rw [contentLength_succeeded] at hle
    exact plain_both hle

theorem steps_recovered_iff (run : Run) (stderr path : Text) :
    Recovers run stderr path ↔ run.Readable stderr := by
  refine ⟨readable_of_recovers, ?_⟩
  intro h
  cases run with
  | snapshotFailed =>
    have hreport : interpretPipelineResult [] stderr path = .error ⟨.snapshot, stderr⟩ := by
      have hempty : parsePipelineOutput [] = fun _ => none := by
        funext name
        simp [parsePipelineOutput, splitLinesKeep, Parse.result]
      have hstderr : stderr ≠ [] := h
      simp [interpretPipelineResult, hempty, hstderr]
    exact ⟨nofun, nofun, by simp [Run.failure?, Run.stdout, hreport,
      AtomicApplyStep.pipelineStep]⟩
  | beforeFailed read => exact h.elim
  | failed before step detail => exact recovers_failed h.1 h.2 step stderr path
  | afterFailed before read => exact h.elim
  | succeeded before after => exact recovers_succeeded h.1 h.2 stderr path

/-- A slice with a comment line that looks like the end of a section loses what follows it. -/
theorem comment_ends_section :
    ¬ ∀ (run : Run) (stderr path : Text), Recovers run stderr path := by
  intro h
  have hplain := readable_of_recovers
    (h (.succeeded "/*\n===ACL_END===\n*/\n".toList "x\n".toList) [] [])
  exact absurd hplain.1 (by decide)

end Meho.Bind9.PipelineOutput
