import Meho.Graph.Annotate

/- What the writers do to the two markers of an edge.

Each lemma says what `superseded_by` or `conflicts_with` is after one change of the
properties, in terms of what it was. -/
namespace Meho.Graph
open Meho.Lib.Journal

variable {V : Type} {p q : Properties V}

theorem supersededBy_ne_conflictsWith : supersededBy ≠ conflictsWith := by decide

/-- The list depends on its own key only. -/
theorem conflictList_congr (h : p.lookup conflictsWith = q.lookup conflictsWith) :
    conflictList p = conflictList q := by
  unfold conflictList
  rw [h]

/-! ## The refresh -/

theorem lookup_stripReservedMarkers {key : String} (h : key ∈ reservedMarkerKeys) :
    (stripReservedMarkers p).lookup key = none := by
  show ((p.erase supersededBy).erase conflictsWith).lookup key = none
  rcases List.mem_cons.mp h with rfl | h
  · rw [Finmap.lookup_erase_ne supersededBy_ne_conflictsWith, Finmap.lookup_erase]
  · obtain rfl := List.mem_singleton.mp h
    exact Finmap.lookup_erase _ _

theorem lookup_keepMarker_ne {m : Properties V} {key key' : String} (h : key ≠ key') :
    (keepMarker p m key').lookup key = m.lookup key := by
  unfold keepMarker
  split
  · exact Finmap.lookup_insert_of_ne _ h
  · rfl

theorem lookup_keepMarker {m : Properties V} {key : String} (h : m.lookup key = none) :
    (keepMarker p m key).lookup key = p.lookup key := by
  unfold keepMarker
  split
  · rename_i value hp
    rw [hp, Finmap.lookup_insert]
  · rename_i hp
    rw [hp, h]

/-- A merge has the markers of the row. -/
theorem lookup_mergeEdgeProperties {key : String} (h : key ∈ reservedMarkerKeys) :
    (mergeEdgeProperties p q).lookup key = p.lookup key := by
  have hne : supersededBy ≠ conflictsWith := supersededBy_ne_conflictsWith
  have hstrip := lookup_stripReservedMarkers (p := q) h
  show (keepMarker p (keepMarker p (stripReservedMarkers q) supersededBy) conflictsWith).lookup key = _
  rcases List.mem_cons.mp h with rfl | h
  · rw [lookup_keepMarker_ne hne, lookup_keepMarker hstrip]
  · obtain rfl := List.mem_singleton.mp h
    apply lookup_keepMarker
    rw [lookup_keepMarker_ne hne.symm, hstrip]

@[simp] theorem conflictList_strip : conflictList (stripReservedMarkers p) = [] := by
  unfold conflictList
  rw [lookup_stripReservedMarkers (List.mem_cons_of_mem _ List.mem_cons_self)]

@[simp] theorem conflictList_merge : conflictList (mergeEdgeProperties p q) = conflictList p :=
  conflictList_congr (lookup_mergeEdgeProperties (List.mem_cons_of_mem _ List.mem_cons_self))

@[simp] theorem conflictList_empty : conflictList (∅ : Properties V) = [] := rfl

/-! ## Annotations -/

theorem lookup_insertAll {key : String} {entries : List (String × Value V)}
    (h : ∀ e ∈ entries, e.1 ≠ key) : (insertAll p entries).lookup key = p.lookup key := by
  induction entries generalizing p with
  | nil => rfl
  | cons e entries ih =>
    obtain ⟨he, hrest⟩ := List.forall_mem_cons.mp h
    show (insertAll (p.insert e.1 e.2) entries).lookup key = _
    rw [ih hrest, Finmap.lookup_insert_of_ne _ he.symm]

section
variable (operator : Operator) (a : Annotation)
include operator a

theorem annotationProperties_reserved {key : String} (h : key ∈ reservedMarkerKeys) :
    ∀ e ∈ annotationProperties (V := V) operator a, e.1 ≠ key := by
  simp only [annotationProperties, List.forall_mem_cons, List.not_mem_nil, false_imp_iff,
    implies_true, and_true]
  rcases List.mem_cons.mp h with rfl | h
  · decide
  · obtain rfl := List.mem_singleton.mp h
    decide

theorem conflictList_mergeOnto (e : EdgeRow V) :
    conflictList (mergeOntoExistingEdge operator a e).properties = conflictList e.properties := by
  have hall := lookup_insertAll (p := e.properties)
    (annotationProperties_reserved operator a (List.mem_cons_of_mem _ List.mem_cons_self))
  unfold mergeOntoExistingEdge
  simp only
  split
  · exact conflictList_congr
      ((Finmap.lookup_erase_ne supersededBy_ne_conflictsWith.symm).trans hall)
  · exact conflictList_congr hall

theorem conflictList_insertCurated (n n' : NodeRow V) :
    conflictList (insertCuratedEdge operator a n n').properties = [] :=
  conflictList_congr (q := ∅) (lookup_insertAll
    (annotationProperties_reserved operator a (List.mem_cons_of_mem _ List.mem_cons_self)))

theorem superseded_insertCurated (n n' : NodeRow V) :
    (insertCuratedEdge operator a n n').properties.lookup supersededBy = none :=
  lookup_insertAll (annotationProperties_reserved operator a List.mem_cons_self)

/-- An edge that an operator takes over loses the mark, and another curated edge has none to
lose. -/
theorem superseded_mergeOnto {e : EdgeRow V}
    (h : e.source = .curated → e.properties.lookup supersededBy = none) :
    (mergeOntoExistingEdge operator a e).properties.lookup supersededBy = none := by
  unfold mergeOntoExistingEdge
  simp only
  split
  · exact Finmap.lookup_erase _ _
  · rename_i hs
    rw [lookup_insertAll (annotationProperties_reserved operator a List.mem_cons_self)]
    exact h (not_not.mp hs)

end

/-! ## Marks -/

section
variable (e : EdgeRow V) (id : Nat)
include e id

theorem conflictList_markSuperseded :
    conflictList (markSuperseded e id).properties = conflictList e.properties :=
  conflictList_congr (Finmap.lookup_insert_of_ne _ supersededBy_ne_conflictsWith.symm)

@[simp] theorem superseded_markSuperseded :
    (markSuperseded e id).properties.lookup supersededBy = some (.uuid id) := Finmap.lookup_insert _

theorem mem_conflictList_append (i : Nat) :
    i ∈ conflictList (appendConflictMarker e id).properties ↔ i ∈ conflictList e.properties ∨ i = id := by
  have hlist : conflictList (appendConflictMarker e id).properties =
      if id ∈ conflictList e.properties then conflictList e.properties
      else conflictList e.properties ++ [id] := by
    show conflictList (Finmap.insert _ _ _) = _
    unfold conflictList
    rw [Finmap.lookup_insert]
  rw [hlist]
  split
  · rename_i hid
    exact ⟨.inl, fun h => h.elim (fun h => h) (fun h => h ▸ hid)⟩
  · simp

@[simp] theorem superseded_append :
    (appendConflictMarker e id).properties.lookup supersededBy = e.properties.lookup supersededBy :=
  Finmap.lookup_insert_of_ne _ supersededBy_ne_conflictsWith

end

/-- Everything but the properties stays. -/
theorem appendAll_row (others : List (EdgeRow V)) (e : EdgeRow V) :
    ∃ properties, others.foldl (fun e other => appendConflictMarker e other.id) e =
        { e with properties := properties } ∧
      properties.lookup supersededBy = e.properties.lookup supersededBy ∧
      ∀ i, i ∈ conflictList properties ↔ i ∈ conflictList e.properties ∨ i ∈ others.map EdgeRow.id := by
  induction others generalizing e with
  | nil => exact ⟨e.properties, rfl, rfl, fun i => by simp⟩
  | cons other others ih =>
    obtain ⟨properties, hrow, hs, hc⟩ := ih (appendConflictMarker e other.id)
    refine ⟨properties, hrow, hs.trans (superseded_append e other.id), fun i => ?_⟩
    rw [hc, mem_conflictList_append, List.map_cons, List.mem_cons, or_assoc]

variable [DecidableEq V]

theorem supersedes_iff {id : Nat} :
    supersedes id p = true ↔ p.lookup supersededBy = some (.uuid id) := decide_eq_true_iff

/-- The two halves of a clearing. -/
theorem clear_properties (e : EdgeRow V) (id : Nat) :
    ∃ props : Properties V,
      props.lookup conflictsWith = e.properties.lookup conflictsWith ∧
      props.lookup supersededBy = (if e.properties.lookup supersededBy = some (.uuid id) then none
        else e.properties.lookup supersededBy) ∧
      (clearReciprocalMarkers e id).properties =
        if id ∈ conflictList props then
          if ((conflictList props).filter (· ≠ id)).isEmpty then props.erase conflictsWith
          else props.insert conflictsWith (.uuids ((conflictList props).filter (· ≠ id)))
        else props := by
  refine ⟨if supersedes id e.properties then e.properties.erase supersededBy else e.properties,
    ?_, ?_, rfl⟩
  · split
    · exact Finmap.lookup_erase_ne supersededBy_ne_conflictsWith.symm
    · rfl
  · by_cases hs : e.properties.lookup supersededBy = some (.uuid id)
    · rw [if_pos hs, if_pos (supersedes_iff.mpr hs), Finmap.lookup_erase]
    · rw [if_neg hs, if_neg (fun h => hs (supersedes_iff.mp h))]

theorem mem_conflictList_clear (e : EdgeRow V) (id i : Nat) :
    i ∈ conflictList (clearReciprocalMarkers e id).properties ↔
      i ∈ conflictList e.properties ∧ i ≠ id := by
  obtain ⟨props, hc, -, hclear⟩ := clear_properties e id
  rw [hclear, ← conflictList_congr hc]
  split
  · have hrest : i ∈ (conflictList props).filter (· ≠ id) ↔ i ∈ conflictList props ∧ i ≠ id := by simp
    rw [← hrest]
    split
    · rename_i hempty
      rw [List.isEmpty_iff.mp hempty]
      simp [conflictList, Finmap.lookup_erase]
    · simp [conflictList, Finmap.lookup_insert]
  · rename_i hid
    exact ⟨fun h => ⟨h, fun heq => hid (heq ▸ h)⟩, And.left⟩

theorem superseded_clear (e : EdgeRow V) (id : Nat) :
    (clearReciprocalMarkers e id).properties.lookup supersededBy =
      if e.properties.lookup supersededBy = some (.uuid id) then none
      else e.properties.lookup supersededBy := by
  obtain ⟨props, -, hs, hclear⟩ := clear_properties e id
  rw [hclear, ← hs]
  split
  · split
    · exact Finmap.lookup_erase_ne supersededBy_ne_conflictsWith
    · exact Finmap.lookup_insert_of_ne _ supersededBy_ne_conflictsWith
  · rfl

end Meho.Graph
