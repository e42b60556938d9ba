import Meho.Json

/- What a mapping holds after a row of writes. Nothing here asks that the update's
keys be distinct. -/
namespace Meho

/-- `d.pop(key, None)` as a statement: the entry of the key is gone. -/
def dictErase (d : Dict) (key : String) : Dict := d.filter (·.1 ≠ key)

theorem dictGet_cons (key : String) (value : Json) (fields : Dict) (name : String) :
    dictGet ((key, value) :: fields) name = if key = name then some value else dictGet fields name :=
  rfl

theorem isSome_dictGet {fields : Dict} {name : String} :
    (dictGet fields name).isSome = true ↔ name ∈ fields.map Prod.fst := by
  induction fields with
  | nil => simp [dictGet]
  | cons entry fields ih =>
    obtain ⟨key, value⟩ := entry
    unfold dictGet
    by_cases hkey : key = name
    · simp [hkey]
    · have hne : name ≠ key := Ne.symm hkey
      simp only [if_neg hkey, ih, List.map_cons, List.mem_cons, hne, false_or]

variable {d : Dict} {key : String}

theorem mem_of_dictGet {value : Json} (h : dictGet d key = some value) : (key, value) ∈ d := by
  induction d with
  | nil => cases h
  | cons e d ih =>
    obtain ⟨k, v⟩ := e
    unfold dictGet at h
    by_cases hk : k = key
    · rw [if_pos hk] at h
      rw [hk, Option.some.inj h]
      exact List.mem_cons_self
    · rw [if_neg hk] at h
      exact List.mem_cons_of_mem _ (ih h)

theorem dictGet_eq_none : dictGet d key = none ↔ ∀ x ∈ d, x.1 ≠ key := by
  induction d with
  | nil => simp [dictGet]
  | cons e d ih =>
    obtain ⟨k, v⟩ := e
    by_cases hk : k = key
    · simp [dictGet, hk]
    · simp [dictGet, hk, ih]

theorem dictGet_of_mem (hd : (d.map Prod.fst).Nodup) {value : Json} (h : (key, value) ∈ d) :
    dictGet d key = some value := by
  induction d with
  | nil => cases h
  | cons e d ih =>
    obtain ⟨k, v⟩ := e
    rw [List.map_cons, List.nodup_cons] at hd
    unfold dictGet
    rcases List.mem_cons.mp h with heq | hmem
    · cases heq
      exact if_pos rfl
    · have hk : k ≠ key := by
        rintro rfl
        exact hd.1 (List.mem_map.mpr ⟨_, hmem, rfl⟩)
      rw [if_neg hk]
      exact ih hd.2 hmem

theorem dictGet_dictErase_ne {key' : String} (h : key' ≠ key) :
    dictGet (dictErase d key) key' = dictGet d key' := by
  induction d with
  | nil => rfl
  | cons e d ih =>
    obtain ⟨k, v⟩ := e
    unfold dictErase at ih ⊢
    by_cases hk : k = key
    · rw [List.filter_cons_of_neg (by simp [hk]), ih]
      show _ = if k = key' then some v else dictGet d key'
      rw [if_neg]
      rintro rfl
      exact h hk
    · rw [List.filter_cons_of_pos (by simp [hk])]
      show (if k = key' then some v else dictGet _ key') = if k = key' then some v else dictGet d key'
      rw [ih]

end Meho
