import Meho.Json
import Meho.Policy.Names
import Mathlib.Data.List.Infix

/- The filters of the audit query beside the fields of its entries (audit_query/query.py).

A filter is a condition on a stored row, an entry is computed from the row. The pattern that
`buildOpIdLikePattern` hands to LIKE matches what the glob means, character by character
(`like_glob`). A status filter agrees with the entry of every row but a withdrawal with the
code of another status. The op id of a row is matched in two spellings, what the payload
holds and what an HTTP row would have; the entry shows one of them.

What a JSON value is as a text is up to the database: `Texts` asks only that a string is
itself and that null is no text.

Correspondence: `is_withdraw_row` and `_is_withdraw_predicate` ↔ `isWithdraw`,
`_build_audit_entry` ↔ `entryOpId`, `entryOpClass`, `_apply_filters` ↔ `opIdPredicate`,
`opClassPredicate`; what is not listed keeps its name. -/
namespace Meho.Audit
open Meho.Policy (Glob globMatch)

/-! ## Patterns -/

/-- `text.replace(c, by)`. -/
def replaceChar (c : Char) (put : List Char) (text : List Char) : List Char :=
  text.flatMap fun d => if d = c then put else [d]

def escapeLikeLiteral (raw : List Char) : List Char :=
  replaceChar '_' ['\\', '_'] (replaceChar '%' ['\\', '%'] (replaceChar '\\' ['\\', '\\'] raw))

def buildOpIdLikePattern (raw : List Char) : List Char :=
  replaceChar '*' ['%'] (escapeLikeLiteral raw)

/-- The pieces of an SQL pattern under `ESCAPE '\'`. -/
def likePieces : List Char → List Glob
  | [] => []
  | '\\' :: c :: pattern => .lit c :: likePieces pattern
  | '%' :: pattern => .any :: likePieces pattern
  | '_' :: pattern => .one :: likePieces pattern
  | c :: pattern => .lit c :: likePieces pattern

/-- `text LIKE pattern ESCAPE '\'`. -/
def like (text pattern : List Char) : Bool := globMatch (likePieces pattern) text

/-- A glob whose only wildcard is `*`. -/
inductive Globs : List Char → List Char → Prop
  | nil : Globs [] []
  | star {glob rest} (taken : List Char) : Globs glob rest → Globs ('*' :: glob) (taken ++ rest)
  | char {glob rest} (c : Char) : c ≠ '*' → Globs glob rest → Globs (c :: glob) (c :: rest)

/-- What becomes of one character of a glob. -/
def globChar (c : Char) : List Char :=
  if c = '*' then ['%'] else if c = '\\' ∨ c = '%' ∨ c = '_' then ['\\', c] else [c]

theorem buildOpIdLikePattern_eq (raw : List Char) :
    buildOpIdLikePattern raw = raw.flatMap globChar := by
  simp only [buildOpIdLikePattern, escapeLikeLiteral, replaceChar, List.flatMap_assoc]
  refine congrArg (List.flatMap · raw) (funext fun c => ?_)
  by_cases hstar : c = '*'
  · simp [hstar, globChar]
  · by_cases hslash : c = '\\'
    · simp [hslash, globChar]
    · by_cases hpercent : c = '%'
      · simp [hpercent, globChar]
      · by_cases hunder : c = '_'
        · simp [hunder, globChar]
        · simp [hstar, hslash, hpercent, hunder, globChar]

theorem likePieces_globChar (c : Char) (pattern : List Char) :
    likePieces (globChar c ++ pattern) =
      (if c = '*' then .any else .lit c) :: likePieces pattern := by
  by_cases hstar : c = '*'
  · simp [hstar, globChar, likePieces]
  · by_cases hspecial : c = '\\' ∨ c = '%' ∨ c = '_'
    · simp [hstar, hspecial, globChar, likePieces]
    · rw [globChar, if_neg hstar, if_neg hspecial, if_neg hstar]
      simp only [not_or] at hspecial
      simp [likePieces, hspecial]

theorem globs_star {glob text : List Char} :
    Globs ('*' :: glob) text ↔ ∃ rest, rest <:+ text ∧ Globs glob rest := by
  constructor
  · intro h
    cases h with
    | star taken h => exact ⟨_, List.suffix_append taken _, h⟩
    | char _ hne _ => exact absurd rfl hne
  · intro ⟨rest, ⟨taken, htaken⟩, h⟩
    exact htaken ▸ .star taken h

/-- The pattern matches what the glob means: `%`, `_` and a backslash stand for themselves. -/
theorem like_glob {raw text : List Char} :
    like text (buildOpIdLikePattern raw) = true ↔ Globs raw text := by
  rw [like, buildOpIdLikePattern_eq]
  induction raw generalizing text with
  | nil =>
    rw [List.flatMap_nil, likePieces, globMatch, List.isEmpty_iff]
    constructor
    · intro h
      exact h ▸ .nil
    · intro h
      cases h
      rfl
  | cons c raw ih =>
    rw [List.flatMap_cons, likePieces_globChar]
    by_cases hstar : c = '*'
    · rw [if_pos hstar, hstar, globMatch, List.any_eq_true, globs_star]
      simp only [ih, List.mem_tails]
    · rw [if_neg hstar]
      cases text with
      | nil =>
        refine iff_of_false nofun fun h => ?_
        generalize htext : ([] : List Char) = text at h
        cases h with
        | star => exact hstar rfl
        | char => exact absurd htext nofun
      | cons d text =>
        rw [globMatch, Bool.and_eq_true, decide_eq_true_eq, ih]
        constructor
        · intro ⟨hd, h⟩
          exact hd ▸ .char c hstar h
        · intro h
          generalize htext : d :: text = whole at h
          cases h with
          | star => exact absurd rfl hstar
          | char _ _ h =>
            obtain ⟨hd, hrest⟩ := List.cons.inj htext
            exact ⟨hd, hrest ▸ h⟩

/-! ## Rows and entries -/

/-- The columns of a stored row that the filters and the entry read. -/
structure AuditRow where
  tenantId : Nat
  method : String
  path : String
  statusCode : Int
  payload : Dict

/-- The text that the database sees in a JSON value, `none` for null. -/
structure Texts where
  asString : Json → Option String
  asString_str : ∀ s, asString (.str s) = some s
  asString_null : asString .null = none

def isWithdraw (row : AuditRow) : Bool := row.method == "APPROVAL" && row.path == "approval.withdraw"

def resultStatusPredicate (resultStatus : String) (row : AuditRow) : Bool :=
  if resultStatus = "ok" then
    row.statusCode < 400 && row.statusCode ≠ 202 && !isWithdraw row
  else if resultStatus = "withdrawn" then isWithdraw row
  else if resultStatus = "pending" then row.statusCode == 202
  else if resultStatus = "denied" then row.statusCode == 401 || row.statusCode == 403
  else if resultStatus = "error" then
    400 ≤ row.statusCode && !(row.statusCode == 401 || row.statusCode == 403)
  else false

/-- The status of a code, for a row that is no withdrawal. -/
def statusOfCode (statusCode : Int) : String :=
  if statusCode = 401 ∨ statusCode = 403 then "denied"
  else if statusCode = 202 then "pending"
  else if 400 ≤ statusCode then "error"
  else "ok"

def deriveResultStatus (row : AuditRow) : String :=
  if isWithdraw row then "withdrawn" else statusOfCode row.statusCode

/-- `http.<method>:<path>`. -/
def derivedOpId (row : AuditRow) : String :=
  "http." ++ String.ofList (row.method.toList.map Char.toLower) ++ ":" ++ row.path

/-- A payload value that is a string and not empty. -/
def payloadText (row : AuditRow) (key : String) : Option String :=
  (dictGetStr row.payload key).filter (· ≠ "")

def entryOpId (row : AuditRow) : String := (payloadText row "op_id").getD (derivedOpId row)

def entryOpClass (classifyOp : String → String) (row : AuditRow) : String :=
  (payloadText row "op_class").getD (classifyOp (entryOpId row))

section Filters
variable (T : Texts)

/-- `payload[key]` as a text. -/
def payloadString (row : AuditRow) (key : String) : Option String :=
  (dictGet row.payload key).bind T.asString

def opIdPredicate (opId : String) (row : AuditRow) : Bool :=
  let pattern := buildOpIdLikePattern opId.toList
  (payloadString T row "op_id").any (fun text => like text.toList pattern) ||
    like (derivedOpId row).toList pattern

def opClassPredicate (opClass : String) (row : AuditRow) : Bool :=
  payloadString T row "op_class" == some opClass

end Filters

/-- The rows of a tenant under one filter. -/
def selectRows (tenantId : Nat) (predicate : AuditRow → Bool) (rows : List AuditRow) :
    List AuditRow :=
  rows.filter fun row => row.tenantId == tenantId && predicate row

/-! ## What the filters select -/

section Agree
variable {T : Texts} {row : AuditRow}

theorem mem_selectRows {rows : List AuditRow} (h : row ∈ rows) (predicate : AuditRow → Bool) :
    row ∈ selectRows row.tenantId predicate rows ↔ predicate row = true := by
  rw [selectRows, List.mem_filter, beq_self_eq_true, Bool.true_and]
  exact and_iff_right h

theorem statusOfCode_iff (code : Int) (s : String) :
    statusOfCode code = s ↔
      s = "ok" ∧ code < 400 ∧ code ≠ 202 ∨ s = "pending" ∧ code = 202 ∨
        s = "denied" ∧ (code = 401 ∨ code = 403) ∨
          s = "error" ∧ 400 ≤ code ∧ ¬ (code = 401 ∨ code = 403) := by
  unfold statusOfCode
  split
  next h =>
    have hcode : ¬ code < 400 ∧ code ≠ 202 := by omega
    simp [h, hcode, eq_comm]
  next hdenied =>
    split
    next h =>
      subst h
      simp [eq_comm]
    next hpending =>
      split
      next h =>
        have hcode : ¬ code < 400 := by omega
        simp [hdenied, hpending, h, hcode, eq_comm]
      next h =>
        have hcode : code < 400 := by omega
        simp [hdenied, hpending, h, hcode, eq_comm]

/-- A withdrawal is also found under the status of its code, if that is not `ok`. -/
theorem resultStatusPredicate_iff (s : String) :
    resultStatusPredicate s row = true ↔ deriveResultStatus row = s ∨
      isWithdraw row = true ∧ s ≠ "ok" ∧ statusOfCode row.statusCode = s := by
  unfold resultStatusPredicate deriveResultStatus
  -- One case for each status, in the order of the source.
  cases isWithdraw row with
  | false =>
    rw [if_neg Bool.false_ne_true, statusOfCode_iff]
    split <;> [skip; split <;> [skip; split <;> [skip; split <;> [skip; split]]]] <;> simp_all
  | true =>
    rw [if_pos rfl, statusOfCode_iff, eq_comm (a := "withdrawn")]
    split <;> [skip; split <;> [skip; split <;> [skip; split <;> [skip; split]]]] <;> simp_all

theorem payloadText_eq_some {key text : String} (h : payloadText row key = some text) :
    payloadString T row key = some text := by
  obtain ⟨hget, -⟩ := Option.filter_eq_some_iff.mp h
  obtain ⟨v, hv, hstr⟩ := Option.bind_eq_some_iff.mp hget
  cases v with
  | str s =>
    obtain rfl := Option.some.inj hstr
    rw [payloadString, hv, Option.bind_some, T.asString_str]
  | _ => exact absurd hstr nofun

theorem opIdPredicate_iff (glob : String) :
    opIdPredicate T glob row = true ↔
      (∃ text, payloadString T row "op_id" = some text ∧ Globs glob.toList text.toList) ∨
        Globs glob.toList (derivedOpId row).toList := by
  rw [opIdPredicate, Bool.or_eq_true, Option.any_eq_true, like_glob]
  simp only [like_glob]

theorem opIdPredicate_of_entry (glob : String)
    (h : Globs glob.toList (entryOpId row).toList) : opIdPredicate T glob row = true := by
  refine opIdPredicate_iff glob |>.mpr ?_
  cases htext : payloadText row "op_id" with
  | none =>
    rw [entryOpId, htext, Option.getD_none] at h
    exact .inr h
  | some text =>
    rw [entryOpId, htext, Option.getD_some] at h
    exact .inl ⟨text, payloadText_eq_some htext, h⟩

/-- The rows that each filter selects, beside the fields of their entries. -/
theorem audit_filters_agree (T : Texts) (classifyOp : String → String) (rows : List AuditRow) :
    ∀ row ∈ rows,
      (∀ s, row ∈ selectRows row.tenantId (resultStatusPredicate s) rows ↔
        deriveResultStatus row = s ∨
          isWithdraw row = true ∧ s ≠ "ok" ∧ statusOfCode row.statusCode = s) ∧
      (∀ glob, row ∈ selectRows row.tenantId (opIdPredicate T glob) rows ↔
        Globs glob.toList (entryOpId row).toList ∨
          (∃ text, payloadString T row "op_id" = some text ∧ Globs glob.toList text.toList) ∨
            Globs glob.toList (derivedOpId row).toList) ∧
      (payloadString T row "op_id" = none → ∀ glob,
        row ∈ selectRows row.tenantId (opIdPredicate T glob) rows ↔
          Globs glob.toList (entryOpId row).toList) ∧
      ((payloadText row "op_class").isSome = true → ∀ opClass,
        row ∈ selectRows row.tenantId (opClassPredicate T opClass) rows ↔
          entryOpClass classifyOp row = opClass) := by
  intro row hrow
  have hmem := mem_selectRows hrow
  refine ⟨fun s => (hmem _).trans (resultStatusPredicate_iff s), fun glob => ?_,
    fun hnone glob => ?_, fun hsome opClass => ?_⟩
  · rw [hmem]
    constructor
    · intro h
      exact .inr (opIdPredicate_iff glob |>.mp h)
    · intro h
      match h with
      | .inl h => exact opIdPredicate_of_entry glob h
      | .inr h => exact opIdPredicate_iff glob |>.mpr h
  · rw [hmem]
    -- without an op id in the payload the entry shows the derived one
    have hentry : entryOpId row = derivedOpId row := by
      cases htext : payloadText row "op_id" with
      | none => rw [entryOpId, htext, Option.getD_none]
      | some text =>
        rw [payloadText_eq_some htext] at hnone
        exact absurd hnone nofun
    rw [opIdPredicate_iff, hnone, hentry]
    simp
  · rw [hmem]
    obtain ⟨text, htext⟩ := Option.isSome_iff_exists.mp hsome
    rw [opClassPredicate, payloadText_eq_some htext, entryOpClass, htext, Option.getD_some, beq_iff_eq,
      Option.some_inj]

/-- The texts of a database that writes integers in decimal. -/
def plainTexts : Texts where
  asString
    | .str s => some s
    | .int i => some (toString i)
    | _ => none
  asString_str _ := rfl
  asString_null := rfl

/-- A tool call as it is stored: the entry shows the tool, and a filter on the path of the
call finds it too. -/
def toolCall : AuditRow where
  tenantId := 1
  method := "MCP"
  path := "/mcp/tools/call/query_audit"
  statusCode := 200
  payload := [("op_id", .str "query_audit"), ("op_class", .str "audit_query")]

theorem audit_filters_sample :
    (∀ s, toolCall ∈ selectRows 1 (resultStatusPredicate s) [toolCall] ↔
      deriveResultStatus toolCall = s ∨
        isWithdraw toolCall = true ∧ s ≠ "ok" ∧ statusOfCode 200 = s) ∧
      ∀ opClass, toolCall ∈ selectRows 1 (opClassPredicate plainTexts opClass) [toolCall] ↔
        entryOpClass (fun _ => "other") toolCall = opClass := by
  have hall := audit_filters_agree plainTexts (fun _ => "other") [toolCall] toolCall
    List.mem_cons_self
  exact ⟨hall.1, hall.2.2.2 (by decide)⟩

theorem derived_op_id_selects :
    toolCall ∈ selectRows 1 (opIdPredicate plainTexts "http.mcp:*") [toolCall] ∧
      entryOpId toolCall = "query_audit" ∧
      ¬ Globs "http.mcp:*".toList (entryOpId toolCall).toList := by
  refine ⟨(mem_selectRows List.mem_cons_self _).mpr (by decide), by decide, fun h => ?_⟩
  have hlike := like_glob.mpr h
  exact absurd hlike (by decide)

end Agree

end Meho.Audit
