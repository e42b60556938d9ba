import Meho.Retrieval.Search
import Mathlib.Data.List.Nodup

/- A search does not see what its caller may not see.

`Visible` says which rows a caller with a memory eligibility may see. A candidate is visible
(`isCandidate_visible`), so two tables with the same visible rows have the same candidates
 in the same order (`bm25Candidates_congr`, `cosineCandidates_congr`), and an entry's row is
found by its id in both (`hydrateHits_congr`). -/
namespace Meho.Retrieval
open Meho.Lib

section Visible
variable {E S : Type} (srv : Server E S)

/-- The instant that a stored expiry names, if it can be read. -/
def readExpiry (text : String) : Option Time :=
  if expiryShape text.toList && srv.validTimestamptz text then
    some (if hasZone text.toList then srv.timestamptz text else srv.timestamp text)
  else none

/-- A memory row for this caller: of a kind that it may read, its own if the kind is a user's,
and with no expiry or one that can be read and lies ahead. -/
structure MemoryVisible (who : MemoryEligibility) (now : Time) (d : Document E) : Prop where
  kind : d.kind ∈ who.kinds
  owner : d.kind ∈ userScopedMemoryKinds →
    fieldText srv d.metadata "user_sub" = some who.principalSub
  expiry : ∀ text, fieldText srv d.metadata "expires_at" = some text →
    ∃ t, readExpiry srv text = some t ∧ now < t

/-- The document may be shown to the caller now. -/
structure Visible (who : MemoryEligibility) (now : Time) (d : Document E) : Prop where
  tenant : d.tenantId = who.tenantId
  memory : d.source = "memory" → MemoryVisible srv who now d

/-- Two tables with the same rows that a caller may see. -/
def SameVisible (who : MemoryEligibility) (now : Time) (docs docs' : List (Document E)) : Prop :=
  ∀ d, Visible srv who now d → (d ∈ docs ↔ d ∈ docs')

/-! ## Candidates are visible -/

variable {srv}

theorem unexpired_iff {now : Time} {metadata : Json} : unexpired srv now metadata = true ↔
    ∀ text, fieldText srv metadata "expires_at" = some text →
      ∃ t, readExpiry srv text = some t ∧ now < t := by
  unfold unexpired
  cases fieldText srv metadata "expires_at" with
  | none => simp
  | some text =>
    simp only [Option.some.injEq, forall_eq', readExpiry]
    cases expiryShape text.toList <;> cases srv.validTimestamptz text <;>
      cases hasZone text.toList <;> simp

/-- The statements of a call by `who`. -/
structure BoundTo (who : MemoryEligibility) (b : Binds) : Prop where
  tenant : b.tenantId = who.tenantId
  principal : b.principalSub = some who.principalSub
  kinds : b.memoryKinds = some who.kinds

variable {who : MemoryEligibility} {b : Binds} {now : Time}

theorem isCandidate_visible (hb : BoundTo who b) {docs : List (Document E)} {d : Document E}
    (h : isCandidate srv b now docs d = true) : Visible srv who now d := by
  simp only [isCandidate, Bool.and_eq_true, decide_eq_true_eq] at h
  obtain ⟨⟨⟨⟨htenant, -⟩, -⟩, hprincipal⟩, hmemory⟩ := h
  refine ⟨htenant.trans hb.tenant, fun hsource => ?_⟩
  simp only [memoryEligibilityPredicate, hsource, hb.kinds, Bool.or_eq_true, Bool.and_eq_true,
    decide_eq_true_eq, ne_eq, not_true, false_or, Option.all_some] at hmemory
  simp only [principalPredicate, hsource, hb.principal, Bool.or_eq_true, decide_eq_true_eq,
    Option.isNone_some, ne_eq, not_true, Bool.false_eq_true, false_or, Option.some.injEq]
    at hprincipal
  refine ⟨hmemory.1, fun hscoped => ?_, unexpired_iff.mp hmemory.2⟩
  rcases hprincipal with hkind | howner
  · exact absurd hscoped hkind
  · obtain ⟨sub, hsub, heq⟩ := (Option.any_eq_true _ _).mp howner
    rw [hsub, of_decide_eq_true heq]

/-- The passages of a visible kb head are visible: no memory rows, of the same tenant. -/
theorem hasPassage_congr {docs docs' : List (Document E)} (h : SameVisible srv who now docs docs')
    {d : Document E} (htenant : d.tenantId = who.tenantId) :
    hasPassage srv docs d = hasPassage srv docs' d := by
  have hmem : ∀ passage : Document E, passage.tenantId = d.tenantId →
      passage.source = "kb-passage" → (passage ∈ docs ↔ passage ∈ docs') := by
    intro passage hpt hsource
    refine h passage ⟨hpt.trans htenant, fun hmemory => ?_⟩
    rw [hsource] at hmemory
    exact absurd hmemory (by decide)
  rw [Bool.eq_iff_iff]
  simp only [hasPassage, List.any_eq_true, Bool.and_eq_true, decide_eq_true_eq]
  constructor
  · rintro ⟨passage, hp, ⟨htp, hsource⟩, hcontains⟩
    exact ⟨passage, (hmem passage htp hsource).mp hp, ⟨htp, hsource⟩, hcontains⟩
  · rintro ⟨passage, hp, ⟨htp, hsource⟩, hcontains⟩
    exact ⟨passage, (hmem passage htp hsource).mpr hp, ⟨htp, hsource⟩, hcontains⟩

theorem isCandidate_congr (hb : BoundTo who b) {docs docs' : List (Document E)}
    (h : SameVisible srv who now docs docs') (d : Document E) :
    isCandidate srv b now docs d = isCandidate srv b now docs' d := by
  by_cases htenant : d.tenantId = b.tenantId
  · have hpassage := hasPassage_congr h (htenant.trans hb.tenant)
    simp only [isCandidate, kbPassageMapping, hpassage]
  · simp only [isCandidate, htenant, decide_false, Bool.false_and]

/-! ## The same candidates -/

/-- Rows that pass conditions that only visible rows pass. -/
theorem filter_perm {docs docs' : Corpus E} (h : SameVisible srv who now docs.docs docs'.docs)
    {p q : Document E → Bool} (hp : ∀ d, p d = true → Visible srv who now d)
    (heq : ∀ d, p d = q d) : (docs.docs.filter p).Perm (docs'.docs.filter q) := by
  have hnodup : ∀ (c : Corpus E) (keep : Document E → Bool), (c.docs.filter keep).Nodup :=
    fun c keep => (List.Nodup.of_map _ c.ids).filter keep
  rw [List.perm_ext_iff_of_nodup (hnodup docs p) (hnodup docs' q)]
  intro d
  rw [List.mem_filter, List.mem_filter, ← heq d]
  constructor
  · rintro ⟨hd, hpd⟩
    exact ⟨(h d (hp d hpd)).mp hd, hpd⟩
  · rintro ⟨hd, hpd⟩
    exact ⟨(h d (hp d hpd)).mpr hd, hpd⟩

/-- A key that ends in the id tells the rows apart. -/
theorem keys_nodup {K : Type} {docs : Corpus E} {p : Document E → Bool} {key : Document E → K}
    (idOf : K → Nat) (hkey : ∀ d, idOf (key d) = d.id) : ((docs.docs.filter p).map key).Nodup := by
  apply List.Nodup.of_map idOf
  rw [List.map_map]
  have hids : idOf ∘ key = (·.id) := funext hkey
  rw [hids]
  exact docs.ids.sublist (List.filter_sublist.map _)

variable [LinearOrder S] (hb : BoundTo who b) {docs docs' : Corpus E}
  (h : SameVisible srv who now docs.docs docs'.docs)
include hb h

theorem bm25Candidates_congr :
    bm25Candidates srv b now docs.docs = bm25Candidates srv b now docs'.docs := by
  unfold bm25Candidates
  rw [orderBy_perm (filter_perm h (q := fun d => isCandidate srv b now docs'.docs d &&
    srv.bodyMatches d.body b.query) (fun d hd => ?_) fun d => ?_)
    (keys_nodup (fun k => (ofLex k).2) fun _ => rfl)]
  · exact isCandidate_visible hb (Bool.and_eq_true_iff.mp hd).1
  · rw [isCandidate_congr hb h]

theorem cosineCandidates_congr :
    cosineCandidates srv b now docs.docs = cosineCandidates srv b now docs'.docs := by
  unfold cosineCandidates
  rw [orderBy_perm (filter_perm h (q := isCandidate srv b now docs'.docs) (fun d hd => ?_)
    fun d => ?_) (keys_nodup (fun k => (ofLex k).2) fun _ => rfl)]
  · exact isCandidate_visible hb hd
  · exact isCandidate_congr hb h d

omit h in
/-- Every candidate is the id of a visible row. -/
theorem mem_candidates {c : Candidate S}
    (hc : c ∈ bm25Candidates srv b now docs.docs ∨ c ∈ cosineCandidates srv b now docs.docs) :
    ∃ d ∈ docs.docs, d.id = c.id ∧ Visible srv who now d := by
  have hrow : ∀ {K : Type} [LinearOrder K] {key : Document E → K} {p : Document E → Bool}
      {f : Document E → Candidate S}, (∀ d, p d = true → Visible srv who now d) →
      (∀ d, (f d).id = d.id) → c ∈ ((orderBy key (docs.docs.filter p)).take candidateLimit).map f →
      ∃ d ∈ docs.docs, d.id = c.id ∧ Visible srv who now d := by
    intro K _ key p f hp hf hmem
    obtain ⟨d, hd, rfl⟩ := List.mem_map.mp hmem
    obtain ⟨hdocs, hpd⟩ := List.mem_filter.mp ((mem_orderBy key).mp (List.mem_of_mem_take hd))
    exact ⟨d, hdocs, (hf d).symm, hp d hpd⟩
  rcases hc with hc | hc
  · exact hrow (fun d hd => isCandidate_visible hb (Bool.and_eq_true_iff.mp hd).1) (fun _ => rfl) hc
  · exact hrow (fun d hd => isCandidate_visible hb hd) (fun _ => rfl) hc

end Visible

/-! ## Fused entries and their rows -/

section Fused
variable {S : Type} {round : Rat → Rat}

section
variable {note : FusedEntry S → S → Nat → FusedEntry S} {entries : List (FusedEntry S)}
    {e : FusedEntry S}

theorem mem_credit {row : Candidate S × Nat} (he : e ∈ credit round note entries row) :
    e.documentId = row.1.id ∨ ∃ e' ∈ entries, e'.documentId = e.documentId := by
  simp only [credit] at he
  split at he
  · obtain ⟨e', he', rfl⟩ := List.mem_map.mp he
    refine .inr ⟨e', he', ?_⟩
    split <;> rfl
  · rcases List.mem_append.mp he with he | he
    · exact .inr ⟨e, he, rfl⟩
    · rw [List.mem_singleton.mp he]
      exact .inl rfl

theorem mem_foldl_credit {rows : List (Candidate S × Nat)}
    (he : e ∈ rows.foldl (credit round note) entries) :
    (∃ row ∈ rows, row.1.id = e.documentId) ∨ ∃ e' ∈ entries, e'.documentId = e.documentId := by
  induction rows generalizing entries with
  | nil => exact .inr ⟨e, he, rfl⟩
  | cons row rows ih =>
    rcases ih he with ⟨row', hrow', heq⟩ | ⟨e', he', heq⟩
    · exact .inl ⟨row', List.mem_cons_of_mem row hrow', heq⟩
    · rcases mem_credit he' with hid | ⟨e'', he'', heq'⟩
      · exact .inl ⟨row, List.mem_cons_self, hid.symm.trans heq⟩
      · exact .inr ⟨e'', he'', heq'.trans heq⟩

end

/-- An entry is about a candidate of one of the lists. -/
theorem mem_rrfFuse {bm25Rows cosineRows : List (Candidate S)} {limit : Nat} {e : FusedEntry S}
    (he : e ∈ rrfFuse round bm25Rows cosineRows limit) :
    ∃ c, (c ∈ bm25Rows ∨ c ∈ cosineRows) ∧ c.id = e.documentId := by
  have hentry := (mem_orderBy _).mp (List.mem_of_mem_take he)
  rcases mem_foldl_credit hentry with ⟨row, hrow, hid⟩ | ⟨e', he', heq⟩
  · exact ⟨row.1, .inr (List.fst_mem_of_mem_zipIdx hrow), hid⟩
  · rcases mem_foldl_credit he' with ⟨row, hrow, hid⟩ | ⟨e'', he'', -⟩
    · exact ⟨row.1, .inl (List.fst_mem_of_mem_zipIdx hrow), hid.trans heq⟩
    · cases he''

end Fused

section Rows
variable {E S : Type} {srv : Server E S} {who : MemoryEligibility} {now : Time}

/-- Ids are unique: the row that is read is the row that was ranked. -/
theorem find_row {docs : Corpus E} {ids : List Nat} {d : Document E} (hd : d ∈ docs.docs)
    (hid : d.id ∈ ids) : (docs.docs.filter (·.id ∈ ids)).find? (·.id = d.id) = some d := by
  cases hfound : (docs.docs.filter (·.id ∈ ids)).find? (·.id = d.id) with
  | none =>
    have hmem : d ∈ docs.docs.filter (·.id ∈ ids) := List.mem_filter.mpr ⟨hd, by simpa using hid⟩
    exact absurd (decide_eq_true rfl) (List.find?_eq_none.mp hfound d hmem)
  | some d' =>
    have hd' : d' ∈ docs.docs := (List.mem_filter.mp (List.mem_of_find?_eq_some hfound)).1
    have heq : d'.id = d.id := by simpa using List.find?_some hfound
    rw [List.inj_on_of_nodup_map docs.ids hd' hd heq]

/-- Every entry's row is there and visible. -/
def Found (srv : Server E S) (who : MemoryEligibility) (now : Time) (docs : List (Document E))
    (fused : List (FusedEntry S)) : Prop :=
  ∀ e ∈ fused, ∃ d ∈ docs, d.id = e.documentId ∧ Visible srv who now d

theorem hydrateHits_congr {docs docs' : Corpus E}
    (h : SameVisible srv who now docs.docs docs'.docs) {fused : List (FusedEntry S)}
    (hfound : Found srv who now docs.docs fused) :
    hydrateHits docs.docs fused = hydrateHits docs'.docs fused := by
  apply List.filterMap_congr
  intro e he
  obtain ⟨d, hd, hid, hvisible⟩ := hfound e he
  have hmem : d.id ∈ fused.map (·.documentId) := List.mem_map.mpr ⟨e, he, hid.symm⟩
  rw [← hid, find_row hd hmem, find_row ((h d hvisible).mp hd) hmem]

theorem mem_hydrateHits {docs : Corpus E} {fused : List (FusedEntry S)}
    (hfound : Found srv who now docs.docs fused) {hit : RetrievalHit S}
    (hhit : hit ∈ hydrateHits docs.docs fused) :
    ∃ d ∈ docs.docs, Visible srv who now d ∧ ∃ e ∈ fused, hit = hitOf d e := by
  obtain ⟨e, he, hsome⟩ := List.mem_filterMap.mp hhit
  obtain ⟨d, hd, hid, hvisible⟩ := hfound e he
  have hmem : d.id ∈ fused.map (·.documentId) := List.mem_map.mpr ⟨e, he, hid.symm⟩
  rw [← hid, find_row hd hmem] at hsome
  exact ⟨d, hd, hvisible, e, he, (Option.some.inj hsome).symm⟩

variable [LinearOrder S]

variable (srv now) in
/-- What a call binds for a caller with an eligibility. -/
theorem retrieve_cases {call : SearchCall} (hwho : call.memoryEligibility = some who) :
    (∃ answer, ∀ docs : Corpus E, retrieve srv now docs call = answer ∧
      ∀ hits, answer = .ok hits → hits = []) ∨
    ∃ b, BoundTo who b ∧ ∀ docs : Corpus E, retrieve srv now docs call =
      .ok (hydrateHits docs.docs (rrfFuse srv.round (bm25Candidates srv b now docs.docs)
        (cosineCandidates srv b now docs.docs) call.limit.toNat)) := by
  have hprincipal : requireMemoryPrincipal call = .ok () := by
    unfold requireMemoryPrincipal
    rw [hwho]
    simp
  -- what ends before the search: a negative limit, a zero limit, a kind that is refused
  by_cases hneg : call.limit < 0
  · refine .inl ⟨_, fun docs => ⟨by unfold retrieve; rw [if_pos hneg], fun hits heq => ?_⟩⟩
    cases heq
  by_cases hzero : call.limit = 0
  · refine .inl ⟨.ok [], fun docs => ⟨?_, fun hits heq => (Except.ok.inj heq).symm⟩⟩
    unfold retrieve
    rw [if_neg hneg, hprincipal]
    simp only [bind, Except.bind, hzero, if_true, pure, Except.pure]
  cases hkinds : memoryKindsFor call with
  | error message =>
    refine .inl ⟨.error message, fun docs => ⟨?_, fun hits heq => by cases heq⟩⟩
    unfold retrieve
    rw [if_neg hneg, hprincipal, hkinds]
    simp only [bind, Except.bind, hzero, if_false, pure, Except.pure]
  | ok kinds =>
    refine .inr ⟨call.binds kinds, ?_, fun docs => ?_⟩
    · unfold memoryKindsFor at hkinds
      rw [hwho] at hkinds
      simp only at hkinds
      split at hkinds
      · cases hkinds
      · rename_i htenant
        split at hkinds
        · cases hkinds
        · refine ⟨(not_not.mp htenant).symm, ?_, (Except.ok.inj hkinds).symm⟩
          simp [SearchCall.binds, hwho]
    · unfold retrieve
      rw [if_neg hneg, hprincipal, hkinds]
      simp only [bind, Except.bind, hzero, if_false, pure, Except.pure]

/-- Two tables with the same visible rows give the same hits, and every hit is a visible row. -/
theorem search_ignores_hidden_rows (srv : Server E S) (now : Time) (who : MemoryEligibility)
    (call : SearchCall) (hwho : call.memoryEligibility = some who) (docs docs' : Corpus E)
    (hsame : SameVisible srv who now docs.docs docs'.docs) :
    retrieve srv now docs call = retrieve srv now docs' call ∧
      ∀ hits, retrieve srv now docs call = .ok hits → ∀ hit ∈ hits,
        ∃ d ∈ docs.docs, Visible srv who now d ∧ ∃ entry, hit = hitOf d entry := by
  rcases retrieve_cases srv now hwho with
    ⟨answer, hanswer⟩ | ⟨b, hb, hretrieve⟩
  · refine ⟨(hanswer docs).1.trans (hanswer docs').1.symm, fun hits hhits hit hhit => ?_⟩
    rw [(hanswer docs).2 hits ((hanswer docs).1.symm.trans hhits)] at hhit
    cases hhit
  · have hfound : Found srv who now docs.docs (rrfFuse srv.round
        (bm25Candidates srv b now docs.docs) (cosineCandidates srv b now docs.docs)
        call.limit.toNat) := by
      intro e he
      obtain ⟨c, hc, hid⟩ := mem_rrfFuse he
      obtain ⟨d, hd, hdid, hvisible⟩ := mem_candidates hb hc
      exact ⟨d, hd, hdid.trans hid, hvisible⟩
    constructor
    · calc retrieve srv now docs call
          = .ok (hydrateHits docs.docs (rrfFuse srv.round (bm25Candidates srv b now docs.docs)
              (cosineCandidates srv b now docs.docs) call.limit.toNat)) := hretrieve docs
        _ = .ok (hydrateHits docs'.docs (rrfFuse srv.round (bm25Candidates srv b now docs.docs)
              (cosineCandidates srv b now docs.docs) call.limit.toNat)) := by
          rw [hydrateHits_congr hsame hfound]
        _ = retrieve srv now docs' call := by
          rw [hretrieve docs', bm25Candidates_congr hb hsame, cosineCandidates_congr hb hsame]
    · intro hits hhits hit hhit
      rw [hretrieve docs] at hhits
      rw [← Except.ok.inj hhits] at hhit
      obtain ⟨d, hd, hvisible, e, -, heq⟩ := mem_hydrateHits hfound hhit
      exact ⟨d, hd, hvisible, e, heq⟩

end Rows

/-- A server on plain texts; it rounds scores from 1/64 to 1/32. -/
def plainServer : Server Unit Rat where
  validTimestamptz _ := true
  timestamptz _ := 0
  timestamp _ := 0
  contains a b := a == b
  jsonText _ := ""
  idText := toString
  bodyMatches body query := body = query
  tsRankCd _ _ := 1 / 10
  encodeOne _ := ()
  distance _ _ := 0
  similarity x := 1 - x
  round q := (Rat.floor (q * 2 ^ 58 + 1 / 2) : Rat) / 2 ^ 58

def vaultNote : Document Unit :=
  ⟨1, 7, "kb", "vault", "kb-entry", "vault", .obj [], (), 0, 0⟩

/-- Bob's own memory. -/
def bobsNote : Document Unit :=
  ⟨0, 7, "memory", "m1", "memory-user", "vault", .obj [("user_sub", .str "bob")], (), 0, 0⟩

def ann : MemoryEligibility :=
  ⟨7, "ann", ["memory-user", "memory-tenant"], by decide, by decide⟩

/-- Bob's memory would be first by its id, and Ann asks for one hit. -/
theorem search_ignores_hidden_rows_bob :
    let call : SearchCall := ⟨7, "vault", none, none, 1, none, none, some ann, false⟩
    let docs : Corpus Unit := ⟨[bobsNote, vaultNote], by decide⟩
    let docs' : Corpus Unit := ⟨[vaultNote], by decide⟩
    (retrieve plainServer 0 docs call).toOption.map (·.map (·.documentId)) = some [1] ∧
      retrieve plainServer 0 docs call = retrieve plainServer 0 docs' call := by
  intro call docs docs'
  have hhidden : ¬ Visible plainServer ann 0 bobsNote := by
    intro h
    exact absurd ((h.memory rfl).owner (by decide)) (by decide)
  have hsame : SameVisible plainServer ann 0 docs.docs docs'.docs := by
    intro d hd
    constructor
    · intro hmem
      rcases List.mem_cons.mp hmem with rfl | hmem
      · exact absurd hd hhidden
      · exact hmem
    · exact List.mem_cons_of_mem _
  exact ⟨by decide +kernel, (search_ignores_hidden_rows plainServer 0 ann call rfl docs docs' hsame).1⟩

end Meho.Retrieval
