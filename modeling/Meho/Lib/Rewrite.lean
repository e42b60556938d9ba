import Mathlib.Data.List.Nodup

/- Tables before and after a statement.

A statement that updates or deletes rows leaves a table whose every row comes from one
row of the table before it, with the same key. `Rewrites key R` says so, and says with
the relation `R` what the statement may have made of the row. -/
namespace Meho.Lib

/-- The rows after a statement that keeps the keys and changes rows as `R` allows. -/
structure Rewrites {ρ κ : Type} (key : ρ → κ) (R : ρ → ρ → Prop) (rows rows' : List ρ) : Prop where
  keys : (rows'.map key).Sublist (rows.map key)
  rows : ∀ r' ∈ rows', ∃ r ∈ rows, key r = key r' ∧ R r r'

namespace Rewrites
variable {ρ κ : Type} {key : ρ → κ} {R S T : ρ → ρ → Prop} {rows rows' rows'' : List ρ}

theorem of_map {f : ρ → ρ} (hkey : ∀ r, key (f r) = key r) (hR : ∀ r ∈ rows, R r (f r)) :
    Rewrites key R rows (rows.map f) := by
  have hkeys : (rows.map f).map key = rows.map key := by
    rw [List.map_map]
    exact List.map_congr_left fun r _ => hkey r
  refine ⟨hkeys ▸ List.Sublist.refl _, ?_⟩
  intro r' hr'
  obtain ⟨r, hr, rfl⟩ := List.mem_map.mp hr'
  exact ⟨r, hr, (hkey r).symm, hR r hr⟩

theorem of_filter (hR : ∀ r, R r r) (keep : ρ → Bool) :
    Rewrites key R rows (rows.filter keep) :=
  ⟨List.Sublist.map _ List.filter_sublist,
    fun r hr => ⟨r, List.mem_of_mem_filter hr, rfl, hR r⟩⟩

theorem refl (hR : ∀ r, R r r) : Rewrites key R rows rows :=
  ⟨List.Sublist.refl _, fun r hr => ⟨r, hr, rfl, hR r⟩⟩

theorem trans (h : Rewrites key R rows rows') (h' : Rewrites key S rows' rows'')
    (hT : ∀ a b c, key a = key b → key b = key c → R a b → S b c → T a c) :
    Rewrites key T rows rows'' := by
  refine ⟨h'.keys.trans h.keys, ?_⟩
  intro r'' hr''
  obtain ⟨r', hr', hkey', hS⟩ := h'.rows r'' hr''
  obtain ⟨r, hr, hkey, hR⟩ := h.rows r' hr'
  exact ⟨r, hr, hkey.trans hkey', hT r r' r'' hkey hkey' hR hS⟩

/-- With distinct keys, a row and what has become of it are related. -/
theorem at_key (h : Rewrites key R rows rows') (hkeys : (rows.map key).Nodup) {r r' : ρ}
    (hr : r ∈ rows) (hr' : r' ∈ rows') (hkey : key r = key r') : R r r' := by
  obtain ⟨q, hq, hqkey, hR⟩ := h.rows r' hr'
  have heq : q = r := List.inj_on_of_nodup_map hkeys hq hr (hqkey.trans hkey.symm)
  exact heq ▸ hR

end Rewrites
end Meho.Lib
