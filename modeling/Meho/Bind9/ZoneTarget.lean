import Mathlib.Data.List.Dedup
import Mathlib.Data.List.DropRight
import Mathlib.Data.List.Induction
import Mathlib.Data.List.Infix
import Mathlib.Data.List.Sort
import Mathlib.Data.String.Basic

/- Which zone a DNS record is written to (connectors/bind9/ops_record.py).

Names are compared without their trailing dots and in lower case, label by label. Without a
zone of the caller's that the server serves, the zone is the longest suffix of the record's
name among the configured ones (`Search.Walked`). A zone that the caller names and the server
serves is taken as it is: the record's name is not looked at. Then a row of the zone with a
file is chosen by its view.

`lower` is `str.lower` and `repr` the function of that name. Of a row of `named-checkconf` its
type is read by nothing here and left out.

Correspondence: each function keeps its name. -/
namespace Meho.Bind9

structure ZoneRow where
  name : String
  file : Option String
  view : Option String
  deriving DecidableEq, Repr

inductive ZoneReason where
  | unresolvable
  | ambiguous
  | ambiguousView
  | viewNotFound
  deriving DecidableEq, Repr

structure ZoneResolutionError where
  reason : ZoneReason
  fqdn : String
  candidates : List String
  deriving DecidableEq, Repr

/-- `_describe`. -/
def ZoneResolutionError.describe (repr : String → String) (e : ZoneResolutionError) : String :=
  let joined := ", ".intercalate e.candidates
  match e.reason with
  | .ambiguousView => "the zone owning " ++ repr e.fqdn ++ " is declared in multiple views (" ++
      joined ++ "); pass ``view`` to pick the split-horizon copy to edit"
  | .viewNotFound => "no zone owning " ++ repr e.fqdn ++
      " is declared in the requested view; the zone is declared in view(s): " ++
      if joined = "" then "<none>" else joined
  | .ambiguous =>
      "multiple configured zones tie as the longest suffix of " ++ repr e.fqdn ++ ": " ++ joined
  | .unresolvable => "no writable bind9 zone resolves for " ++ repr e.fqdn

/-! ## Names -/

/-- `name.rstrip(".")`. -/
def rstripDots (name : String) : String :=
  String.ofList (name.toList.reverse.dropWhile (· = '.')).reverse

/-- `name.split(".")`. -/
def labels (name : String) : List (List Char) := name.toList.splitOn '.'

section Zones
variable (lower : String → String)

def normalised (name : String) : String := lower (rstripDots name)

/-! ## The longest suffix -/

/-- What the loop over the zones carries. -/
structure Search where
  bestMatch : Option String
  bestLabelCount : Int
  ties : List String

/-- The zone's labels are the last of the name's. -/
def isSuffixOf (zoneLabels fqdnLabels : List (List Char)) : Bool :=
  if fqdnLabels.length < zoneLabels.length then false
  else fqdnLabels.drop (fqdnLabels.length - zoneLabels.length) = zoneLabels

def Search.visit (fqdnLabels : List (List Char)) (s : Search) (zone : String) : Search :=
  let zoneNormalised := normalised lower zone
  let zoneLabels := labels zoneNormalised
  if zoneNormalised = "" || zoneNormalised = "." then s
  else if ! isSuffixOf zoneLabels fqdnLabels then s
  else if s.bestLabelCount < zoneLabels.length then
    ⟨some zoneNormalised, zoneLabels.length, [zoneNormalised]⟩
  else if zoneLabels.length = s.bestLabelCount then
    { s with ties := s.ties ++ [zoneNormalised] }
  else s

def Search.start : Search := ⟨none, -1, []⟩

def resolveZoneForFqdn (zones : List String) (fqdn : String) :
    Except ZoneResolutionError String :=
  let s := zones.foldl (Search.visit lower (labels (normalised lower fqdn))) Search.start
  match s.bestMatch with
  | none => .error ⟨.unresolvable, fqdn, []⟩
  | some best => if 1 < s.ties.length then .error ⟨.ambiguous, fqdn, s.ties⟩ else .ok best

/-! ## The target -/

/-- `_name`. -/
def zoneName (row : ZoneRow) : String := normalised lower row.name

/-- `row.get("file")` is true. -/
def ZoneRow.writable (row : ZoneRow) : Bool := row.file.any (· ≠ "")

/-- A set of names in order. -/
def sortedSet (names : List String) : List String :=
  names.dedup.mergeSort fun a b => decide (a ≤ b)

def configuredZoneNames (rows : List ZoneRow) : List String := rows.map (zoneName lower)

/-- The zone a call asks for, if the server serves it. -/
def servedZone (rows : List ZoneRow) (explicitZone : Option String) : Option String :=
  (explicitZone.map (normalised lower)).filter (· ∈ configuredZoneNames lower rows)

def zoneForCall (rows : List ZoneRow) (fqdn : String) (explicitZone : Option String) :
    Except ZoneResolutionError String :=
  match servedZone lower rows explicitZone with
  | some zone => .ok zone
  | none => resolveZoneForFqdn lower (sortedSet (configuredZoneNames lower rows)) fqdn

/-- The rows of a zone that can be written. -/
def candidateRows (rows : List ZoneRow) (zone : String) : List ZoneRow :=
  rows.filter fun row => zoneName lower row = zone && row.writable

/-- The row of the asked view, or of the only one. -/
def chooseRow (fqdn : String) (explicitView : Option String) (candidates : List ZoneRow) :
    Except ZoneResolutionError ZoneRow :=
  let declaredViews := sortedSet ((candidates.filterMap (·.view)).filter (· ≠ ""))
  match candidates with
  | [] => .error ⟨.unresolvable, fqdn, []⟩
  | first :: _ =>
    match explicitView with
    | some view =>
      match candidates.filter (·.view = some view) with
      | [] => .error ⟨.viewNotFound, fqdn, declaredViews⟩
      | matched :: _ => .ok matched
    | none =>
      if 1 < ((candidates.map (·.view)).dedup).length then
        .error ⟨.ambiguousView, fqdn, declaredViews⟩
      else .ok first

/-- The zone, its file and its view. -/
def resolveZoneTarget (rows : List ZoneRow) (fqdn : String)
    (explicitZone explicitView : Option String) :
    Except ZoneResolutionError (String × String × Option String) :=
  match zoneForCall lower rows fqdn explicitZone with
  | .error e => .error e
  | .ok zone =>
    (chooseRow fqdn explicitView (candidateRows lower rows zone)).map fun chosen =>
      (zone, chosen.file.getD "", chosen.view)

end Zones

/-! ## What the walk finds -/

theorem isSuffixOf_iff {zone fqdn : List (List Char)} : isSuffixOf zone fqdn = true ↔ zone <:+ fqdn := by
  unfold isSuffixOf
  constructor
  · intro h
    split at h
    · cases h
    · have hdrop := of_decide_eq_true h
      rw [← hdrop]
      exact List.drop_suffix _ _
  · intro h
    rw [if_neg (Nat.not_lt_of_le h.length_le)]
    exact decide_eq_true (List.suffix_iff_eq_drop.mp h).symm

section Walk
variable {lower : String → String} {fqdn : List (List Char)}

/-- A visited zone that owns the name. -/
def Owns (lower : String → String) (fqdn : List (List Char)) (zone : String) : Prop :=
  normalised lower zone ≠ "" ∧ normalised lower zone ≠ "." ∧ labels (normalised lower zone) <:+ fqdn

/-- The loop behind the zones `zones`. -/
structure Search.Walked (lower : String → String) (fqdn : List (List Char)) (zones : List String)
    (s : Search) : Prop where
  longest : ∀ zone ∈ zones, Owns lower fqdn zone →
    ((labels (normalised lower zone)).length : Int) ≤ s.bestLabelCount
  found : ∀ best, s.bestMatch = some best →
    (∃ zone ∈ zones, normalised lower zone = best ∧ Owns lower fqdn zone) ∧
      s.bestLabelCount = (labels best).length
  started : s.bestMatch = none → s.bestLabelCount = -1
  ties : s.ties.Sublist (zones.map (normalised lower)) ∧
    ∀ t ∈ s.ties, labels t <:+ fqdn ∧ ((labels t).length : Int) = s.bestLabelCount

theorem Search.Walked.start : Search.Walked lower fqdn [] Search.start :=
  ⟨nofun, nofun, fun _ => rfl, ⟨List.nil_sublist _, nofun⟩⟩

/-- A zone that does not own the name is passed over. -/
theorem visit_of_not_owns {s : Search} {zone : String} (h : ¬ Owns lower fqdn zone) :
    s.visit lower fqdn zone = s := by
  unfold Search.visit
  by_cases hempty : normalised lower zone = "" ∨ normalised lower zone = "."
  · rw [if_pos (by simpa using hempty)]
  · rw [not_or] at hempty
    have hsuffix : isSuffixOf (labels (normalised lower zone)) fqdn = false := by
      refine Bool.eq_false_iff.mpr fun hs => h ?_
      exact ⟨hempty.1, hempty.2, isSuffixOf_iff.mp hs⟩
    rw [if_neg (by simpa using hempty), if_pos (by rw [hsuffix]; rfl)]

theorem visit_of_owns {s : Search} {zone : String} (h : Owns lower fqdn zone) :
    s.visit lower fqdn zone =
      if s.bestLabelCount < (labels (normalised lower zone)).length then
        ⟨some (normalised lower zone), (labels (normalised lower zone)).length,
          [normalised lower zone]⟩
      else if (labels (normalised lower zone)).length = s.bestLabelCount then
        { s with ties := s.ties ++ [normalised lower zone] }
      else s := by
  obtain ⟨hempty, hdot, hsuffix⟩ := h
  unfold Search.visit
  rw [if_neg (by simp [hempty, hdot]), if_neg (by rw [isSuffixOf_iff.mpr hsuffix]; decide)]

theorem Search.Walked.visit {zones : List String} {s : Search} (h : s.Walked lower fqdn zones)
    (zone : String) : (s.visit lower fqdn zone).Walked lower fqdn (zones ++ [zone]) := by
  have hmore : (zones.map (normalised lower)).Sublist ((zones ++ [zone]).map (normalised lower)) := by
    rw [List.map_append]
    exact List.sublist_append_left _ _
  have hold : ∀ best, s.bestMatch = some best →
      (∃ zone' ∈ zones ++ [zone], normalised lower zone' = best ∧ Owns lower fqdn zone') ∧
        s.bestLabelCount = (labels best).length := by
    intro best hbest
    obtain ⟨⟨zone', hmem, hname, howns⟩, hcount⟩ := h.found best hbest
    exact ⟨⟨zone', List.mem_append_left _ hmem, hname, howns⟩, hcount⟩
  by_cases howns : Owns lower fqdn zone
  · rw [visit_of_owns howns]
    split
    -- a longer zone takes the place of the best one and of its ties
    · rename_i hlonger
      refine ⟨?_, ?_, nofun, ?_⟩
      · intro zone' hmem hzone'
        rcases List.mem_append.mp hmem with hmem | hmem
        · exact Int.le_of_lt (Int.lt_of_le_of_lt (h.longest zone' hmem hzone') hlonger)
        · rw [List.mem_singleton.mp hmem]
      · intro best hbest
        cases hbest
        exact ⟨⟨zone, by simp, rfl, howns⟩, rfl⟩
      · refine ⟨?_, ?_⟩
        · rw [List.map_append]
          exact List.sublist_append_right _ _
        · intro t ht
          rw [List.mem_singleton.mp ht]
          exact ⟨howns.2.2, rfl⟩
    · rename_i hshort
      have hbound : ∀ zone' ∈ zones ++ [zone], Owns lower fqdn zone' →
          ((labels (normalised lower zone')).length : Int) ≤ s.bestLabelCount := by
        intro zone' hmem hzone'
        rcases List.mem_append.mp hmem with hmem | hmem
        · exact h.longest zone' hmem hzone'
        · rw [List.mem_singleton.mp hmem]
          exact Int.not_lt.mp hshort
      split
      -- as long as the best one: a tie, which is kept beside it
      · rename_i htie
        refine ⟨hbound, hold, h.started, ?_, ?_⟩
        · rw [List.map_append]
          exact h.ties.1.append (List.Sublist.refl _)
        · intro t ht
          rcases List.mem_append.mp ht with ht | ht
          · exact h.ties.2 t ht
          · rw [List.mem_singleton.mp ht]
            exact ⟨howns.2.2, htie⟩
      · exact ⟨hbound, hold, h.started, h.ties.1.trans hmore, h.ties.2⟩
  · rw [visit_of_not_owns howns]
    refine ⟨?_, hold, h.started, h.ties.1.trans hmore, h.ties.2⟩
    intro zone' hmem hzone'
    rcases List.mem_append.mp hmem with hmem | hmem
    · exact h.longest zone' hmem hzone'
    · rw [List.mem_singleton.mp hmem] at hzone'
      exact absurd hzone' howns

theorem walked (zones : List String) :
    (zones.foldl (Search.visit lower fqdn) Search.start).Walked lower fqdn zones := by
  induction zones using List.reverseRecOn with
  | nil => exact .start
  | append_singleton zones zone ih =>
    rw [List.foldl_append]
    exact ih.visit zone

/-- The zone that the walk finds owns the name, and every other zone that does owns the zone too. -/
theorem resolveZoneForFqdn_ok {zones : List String} {name zone : String}
    (h : resolveZoneForFqdn lower zones name = .ok zone) :
    (∃ z ∈ zones, normalised lower z = zone ∧ Owns lower (labels (normalised lower name)) z) ∧
      ∀ z ∈ zones, Owns lower (labels (normalised lower name)) z →
        labels (normalised lower z) <:+ labels zone := by
  unfold resolveZoneForFqdn at h
  have hwalk := @walked lower (labels (normalised lower name)) zones
  generalize zones.foldl (Search.visit lower (labels (normalised lower name))) Search.start = s
    at h hwalk
  dsimp only at h
  cases hbest : s.bestMatch with
  | none =>
    rw [hbest] at h
    cases h
  | some best =>
    simp only [hbest] at h
    split at h
    · cases h
    · cases h
      obtain ⟨⟨z, hz, hname, howns⟩, hcount⟩ := hwalk.found _ hbest
      refine ⟨⟨z, hz, hname, howns⟩, fun z' hz' howns' => ?_⟩
      have hlength := hwalk.longest z' hz' howns'
      have hzone : labels zone <:+ labels (normalised lower name) := hname ▸ howns.2.2
      exact List.suffix_of_suffix_length_le howns'.2.2 hzone (by omega)

end Walk

/-! ## The chosen row -/

section Target
variable {lower : String → String} {rows : List ZoneRow} {fqdn zone file : String}
  {explicitZone explicitView view : Option String}

theorem mem_sortedSet {names : List String} {name : String} :
    name ∈ sortedSet names ↔ name ∈ names := by
  rw [sortedSet, List.mem_mergeSort, List.mem_dedup]

/-- Where normalising a name twice is normalising it once, configured names stay what they are. -/
theorem normalised_configured (hlower : ∀ s, normalised lower (normalised lower s) = normalised lower s)
    {name : String} (h : name ∈ configuredZoneNames lower rows) : normalised lower name = name := by
  obtain ⟨row, -, rfl⟩ := List.mem_map.mp h
  exact hlower row.name

theorem eq_of_dedup_short {α : Type} [DecidableEq α] {xs : List α}
    (h : ¬ 1 < xs.dedup.length) {a b : α} (ha : a ∈ xs) (hb : b ∈ xs) : a = b := by
  have ha' := List.mem_dedup.mpr ha
  have hb' := List.mem_dedup.mpr hb
  match hdedup : xs.dedup with
  | [] => rw [hdedup] at ha'; cases ha'
  | [c] =>
    rw [hdedup] at ha' hb'
    rw [List.mem_singleton.mp ha', List.mem_singleton.mp hb']
  | c :: d :: rest =>
    rw [hdedup, List.length_cons, List.length_cons] at h
    omega

theorem mem_candidateRows {row : ZoneRow} (h : row ∈ candidateRows lower rows zone) :
    row ∈ rows ∧ zoneName lower row = zone ∧ row.file = some (row.file.getD "") ∧
      row.file.getD "" ≠ "" := by
  obtain ⟨hmem, hrow⟩ := List.mem_filter.mp h
  rw [Bool.and_eq_true, decide_eq_true_eq] at hrow
  obtain ⟨hname, hwritable⟩ := hrow
  unfold ZoneRow.writable at hwritable
  cases hfile : row.file with
  | none =>
    rw [hfile] at hwritable
    cases hwritable
  | some f =>
    rw [hfile] at hwritable
    exact ⟨hmem, hname, rfl, by simpa using hwritable⟩

theorem chooseRow_ok {candidates : List ZoneRow} {chosen : ZoneRow}
    (h : chooseRow fqdn explicitView candidates = .ok chosen) :
    chosen ∈ candidates ∧ (∀ asked, explicitView = some asked → chosen.view = some asked) ∧
      (explicitView = none → ∀ row ∈ candidates, row.view = chosen.view) := by
  unfold chooseRow at h
  cases candidates with
  | nil => cases h
  | cons first rest =>
    cases explicitView with
    | some asked =>
      cases hfilter : (first :: rest).filter (·.view = some asked) with
      | nil =>
        simp only [hfilter] at h
        cases h
      | cons matched more =>
        simp only [hfilter] at h
        cases h
        have hmem : chosen ∈ (first :: rest).filter (·.view = some asked) := by
          rw [hfilter]
          exact List.mem_cons_self
        obtain ⟨hin, hview⟩ := List.mem_filter.mp hmem
        refine ⟨hin, fun other hother => ?_, nofun⟩
        cases hother
        exact of_decide_eq_true hview
    | none =>
      dsimp only at h
      split at h
      · cases h
      · rename_i hone
        cases h
        refine ⟨List.mem_cons_self, nofun, fun _ row hrow => ?_⟩
        exact eq_of_dedup_short hone (List.mem_map_of_mem hrow)
          (List.mem_map_of_mem List.mem_cons_self)

/-- **The zone a write goes to.** It is a configured zone with a file, in the view that was asked
for, or in its only view. A zone that the caller names and the server serves is taken as it
is; otherwise the zone owns the record's name, and it is the longest configured one that
does. -/
theorem zone_target (hlower : ∀ s, normalised lower (normalised lower s) = normalised lower s)
    (h : resolveZoneTarget lower rows fqdn explicitZone explicitView = .ok (zone, file, view)) :
    (∃ row ∈ rows, zoneName lower row = zone ∧ row.file = some file ∧ file ≠ "" ∧
      row.view = view) ∧
    (∀ asked, explicitView = some asked → view = some asked) ∧
    (explicitView = none → ∀ row ∈ rows, zoneName lower row = zone → row.writable = true →
      row.view = view) ∧
    match servedZone lower rows explicitZone with
    | some served => zone = served
    | none => zone ≠ "" ∧ labels zone <:+ labels (normalised lower fqdn) ∧
        ∀ row ∈ rows, zoneName lower row ≠ "" → zoneName lower row ≠ "." →
          labels (zoneName lower row) <:+ labels (normalised lower fqdn) →
            labels (zoneName lower row) <:+ labels zone := by
  unfold resolveZoneTarget at h
  cases hzone : zoneForCall lower rows fqdn explicitZone with
  | error e =>
    rw [hzone] at h
    cases h
  | ok zone' =>
    rw [hzone] at h
    cases hchosen : chooseRow fqdn explicitView (candidateRows lower rows zone') with
    | error e =>
      simp only [hchosen] at h
      cases h
    | ok chosen =>
      simp only [hchosen] at h
      cases h
      obtain ⟨hmem, hasked, honly⟩ := chooseRow_ok hchosen
      obtain ⟨hrow, hname, hfile, hne⟩ := mem_candidateRows hmem
      refine ⟨⟨chosen, hrow, hname, hfile, hne, rfl⟩, hasked, fun hnone row hin hname' hwritable => ?_,
        ?_⟩
      · refine honly hnone row (List.mem_filter.mpr ⟨hin, ?_⟩)
        rw [hwritable, Bool.and_true]
        exact decide_eq_true hname'
      · unfold zoneForCall at hzone
        -- an explicit zone that is served is taken as it is; else the longest one owns the name
        cases hserved : servedZone lower rows explicitZone with
        | some served =>
          rw [hserved] at hzone
          cases hzone
          rfl
        | none =>
          rw [hserved] at hzone
          obtain ⟨⟨z, hz, hzname, hempty, -, hsuffix⟩, hlongest⟩ := resolveZoneForFqdn_ok hzone
          rw [hzname] at hempty hsuffix
          refine ⟨hempty, hsuffix, fun row hin hrowempty hdot howns => ?_⟩
          have hconfigured : zoneName lower row ∈ configuredZoneNames lower rows :=
            List.mem_map_of_mem hin
          have hsame := normalised_configured hlower hconfigured
          have hlabels := hlongest _ (mem_sortedSet.mpr hconfigured)
            (by rw [Owns, hsame]; exact ⟨hrowempty, hdot, howns⟩)
          rwa [hsame] at hlabels

end Target

/-! ## A sample -/

/-- `str.lower` of names in ASCII. -/
def asciiLower (name : String) : String := String.ofList (name.toList.map Char.toLower)

theorem toLower_eq_dot_iff (c : Char) : c.toLower = '.' ↔ c = '.' := by
  unfold Char.toLower
  split
  · rename_i hupper
    constructor
    · intro h
      have hval := congrArg Char.toNat h
      simp only [Char.toNat, UInt32.le_iff_toNat_le, UInt32.toNat_add] at hupper hval
      simp at hupper hval
      omega
    · rintro rfl
      exact absurd hupper (by decide)
  · exact Iff.rfl

theorem toLower_toLower (c : Char) : c.toLower.toLower = c.toLower := by
  unfold Char.toLower
  split
  · rename_i hupper
    rw [dif_neg]
    simp only [UInt32.le_iff_toNat_le, UInt32.toNat_add] at hupper ⊢
    simp at hupper ⊢
    omega
  · rfl

theorem normalised_asciiLower (s : String) :
    normalised asciiLower (normalised asciiLower s) = normalised asciiLower s := by
  have hlower : ∀ name : String, rstripDots (asciiLower name) = asciiLower (rstripDots name) := by
    intro name
    have hdot : ((fun c => decide (c = '.')) ∘ Char.toLower) = fun c : Char => decide (c = '.') := by
      funext c
      exact decide_eq_decide.mpr (toLower_eq_dot_iff c)
    simp only [rstripDots, asciiLower, String.toList_ofList, ← List.map_reverse,
      List.dropWhile_map, hdot]
  have hstrip : ∀ name : String, rstripDots (rstripDots name) = rstripDots name := by
    intro name
    simp only [rstripDots, String.toList_ofList, List.reverse_reverse,
      List.dropWhile_idempotent]
  have hidem : ∀ name : String, asciiLower (asciiLower name) = asciiLower name := by
    intro name
    simp only [asciiLower, String.toList_ofList, List.map_map]
    congr 2
    funext c
    exact toLower_toLower c
  rw [normalised, normalised, hlower, hidem, hstrip]

def twoZones : List ZoneRow :=
  [⟨"evba.lab", some "db.evba", none⟩, ⟨"other.example.", some "db.other", none⟩]

theorem resolve_sample :
    resolveZoneTarget asciiLower twoZones "API.evba.lab" none none =
      .ok ("evba.lab", "db.evba", none) := by
  have hnames : configuredZoneNames asciiLower twoZones = ["evba.lab", "other.example"] := by
    decide +kernel
  have hsorted : sortedSet (configuredZoneNames asciiLower twoZones) =
      ["evba.lab", "other.example"] := by
    rw [hnames, sortedSet, show ["evba.lab", "other.example"].dedup = ["evba.lab", "other.example"]
      from by decide +kernel]
    exact List.mergeSort_of_pairwise (by decide +kernel)
  have hserved : servedZone asciiLower twoZones none = none := rfl
  simp only [resolveZoneTarget, zoneForCall, hserved, hsorted]
  decide +kernel

theorem zone_target_sample :
    (∃ row ∈ twoZones, zoneName asciiLower row = "evba.lab" ∧ row.file = some "db.evba" ∧
      "db.evba" ≠ "" ∧ row.view = none) ∧
    (∀ asked, (none : Option String) = some asked → (none : Option String) = some asked) ∧
    ((none : Option String) = none → ∀ row ∈ twoZones, zoneName asciiLower row = "evba.lab" →
      row.writable = true → row.view = none) ∧
    match servedZone asciiLower twoZones none with
    | some served => "evba.lab" = served
    | none => "evba.lab" ≠ "" ∧ labels "evba.lab" <:+ labels (normalised asciiLower "API.evba.lab") ∧
        ∀ row ∈ twoZones, zoneName asciiLower row ≠ "" → zoneName asciiLower row ≠ "." →
          labels (zoneName asciiLower row) <:+ labels (normalised asciiLower "API.evba.lab") →
            labels (zoneName asciiLower row) <:+ labels "evba.lab" :=
  zone_target normalised_asciiLower resolve_sample

/-- A zone that the caller names is taken though the record's name is not in it. -/
theorem foreign_zone_taken :
    resolveZoneTarget asciiLower twoZones "api.evba.lab" (some "other.example") none =
      .ok ("other.example", "db.other", none) ∧
    isSuffixOf (labels "other.example") (labels "api.evba.lab") = false := by
  decide +kernel

end Meho.Bind9
