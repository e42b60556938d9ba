import Mathlib.Data.List.Basic

/- JSON values as the backplane stores them in its JSON columns.

A mapping is the list of its entries in order. The code builds these from
Python dictionaries, so a key stands at most once; lookups read the first
entry of a key and writes replace it (`dictSet`), so nothing below depends on
what a second entry would do. A float keeps its printed form: no modelled
function computes with one. -/
namespace Meho

/-- A JSON value. -/
inductive Json where
  | null
  | bool (b : Bool)
  | int (i : Int)
  | float (text : String)
  | str (s : String)
  | arr (items : List Json)
  | obj (fields : List (String × Json))
  deriving Repr, BEq, Inhabited

/-- The entries of a JSON mapping. -/
abbrev Dict := List (String × Json)

/-- `d.get(key)`. -/
def dictGet : Dict → String → Option Json
  | [], _ => none
  | (k, v) :: d, key => if k = key then some v else dictGet d key

/-- `d[key] = value`: an entry that exists keeps its place. -/
def dictSet : Dict → String → Json → Dict
  | [], key, value => [(key, value)]
  | (k, v) :: d, key, value => if k = key then (key, value) :: d else (k, v) :: dictSet d key value

/-- `d.setdefault(key, value)`. -/
def dictSetDefault (d : Dict) (key : String) (value : Json) : Dict :=
  match dictGet d key with
  | some _ => d
  | none => d ++ [(key, value)]

/-- `d.update(e)`. -/
def dictUpdate (d e : Dict) : Dict := e.foldl (fun d entry => dictSet d entry.1 entry.2) d

/-- A string value, `none` for anything else. -/
def Json.asStr? : Json → Option String
  | .str s => some s
  | _ => none

/-- `bool(value)`. -/
def Json.truthy : Json → Bool
  | .bool b => b
  | .null => false
  | .int i => i ≠ 0
  | .str s => s ≠ ""
  | .arr xs => !xs.isEmpty
  | .obj fs => !fs.isEmpty
  | .float text => text ≠ "0.0" && text ≠ "-0.0"

/-- `d.get(key)` when the value is a string. -/
def dictGetStr (d : Dict) (key : String) : Option String := (dictGet d key).bind Json.asStr?

/-- A key that was just written reads back. -/
@[simp] theorem dictGet_dictSet (d : Dict) (key : String) (value : Json) :
    dictGet (dictSet d key value) key = some value := by
  induction d with
  | nil => simp [dictSet, dictGet]
  | cons e d ih =>
    obtain ⟨k, v⟩ := e
    by_cases hk : k = key
    · simp [dictSet, dictGet, hk]
    · simp [dictSet, dictGet, hk, ih]

variable {key key' : String}

section
variable (h : key' ≠ key) (d : Dict) (value : Json)
include h d value

theorem dictGet_dictSet_ne : dictGet (dictSet d key value) key' = dictGet d key' := by
  induction d with
  | nil => simp [dictSet, dictGet, h.symm]
  | cons e d ih =>
    obtain ⟨k, v⟩ := e
    by_cases hk : k = key
    · subst hk; simp [dictSet, dictGet, h.symm]
    · simp only [dictSet, hk, if_false, dictGet, ih]

theorem dictGet_append_ne : dictGet (d ++ [(key, value)]) key' = dictGet d key' := by
  induction d with
  | nil => simp [dictGet, h.symm]
  | cons e d ih =>
    obtain ⟨k, v⟩ := e
    simp only [List.cons_append, dictGet, ih]

theorem dictGet_dictSetDefault_ne : dictGet (dictSetDefault d key value) key' = dictGet d key' := by
  unfold dictSetDefault
  split
  · rfl
  · exact dictGet_append_ne h d value

end

theorem dictGet_dictUpdate_ne {e : Dict} (h : ∀ x ∈ e, x.1 ≠ key) (d : Dict) :
    dictGet (dictUpdate d e) key = dictGet d key := by
  induction e generalizing d with
  | nil => rfl
  | cons x e ih =>
    have hx : key ≠ x.1 := Ne.symm (h x List.mem_cons_self)
    change dictGet (dictUpdate (dictSet d x.1 x.2) e) key = _
    rw [ih (fun y hy => h y (List.mem_cons_of_mem x hy)), dictGet_dictSet_ne hx]

/-- The last entry an update has for a key is the one that stays. -/
theorem dictGet_dictUpdate_last (d xs : Dict) (value : Json) {ys : Dict} (h : ∀ y ∈ ys, y.1 ≠ key) :
    dictGet (dictUpdate d (xs ++ (key, value) :: ys)) key = some value := by
  have hsplit : dictUpdate d (xs ++ (key, value) :: ys) =
      dictUpdate (dictSet (dictUpdate d xs) key value) ys := by
    simp [dictUpdate, List.foldl_append]
  rw [hsplit, dictGet_dictUpdate_ne h, dictGet_dictSet]

end Meho
