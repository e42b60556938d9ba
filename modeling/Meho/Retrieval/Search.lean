import Meho.Auth.Operator
import Meho.Lib.Query
import Meho.Lib.Iso8601
import Mathlib.Data.Prod.Lex
import Mathlib.Order.OrderDual
import Mathlib.Algebra.Order.Ring.Rat

/- Hybrid search over the documents of a tenant (retrieval/retriever.py).

Two SELECTs rank the rows that the call may see, one by full text and one by the distance of
the embeddings, and each stops at its first fifty. The two lists are fused by their ranks
alone, and the rows of the best entries are read by their ids, without any other condition.

What the database server and the embedding model compute is a parameter (`Server`): the two
scores, the casts of a timestamp, `@>`, and how a double rounds. A condition of a SELECT that
is NULL does not hold. Rows of one score come in the order of their ids.

Correspondence: each function keeps its name, and so does each `_..._SQL`
text. -/
namespace Meho.Retrieval
open Meho.Lib

/-! ## Documents -/

structure Document (E : Type) where
  id : Nat
  tenantId : Nat
  source : String
  sourceId : String
  kind : String
  body : String
  metadata : Json
  embedding : E
  createdAt : Time
  updatedAt : Time

/-- The rows of the table; the id is its primary key. -/
structure Corpus (E : Type) where
  docs : List (Document E)
  ids : (docs.map (·.id)).Nodup

/-- What the server, and the embedding model, compute. -/
structure Server (E S : Type) where
  /-- `pg_input_is_valid(_, 'timestamptz')`. -/
  validTimestamptz : String → Bool
  timestamptz : String → Time
  /-- `CAST(_ AS timestamp)`, as a time in UTC. -/
  timestamp : String → Time
  /-- `jsonb @> jsonb`. -/
  contains : Json → Json → Bool
  /-- What `->>` gives for a value that is no string. -/
  jsonText : Json → String
  idText : Nat → String
  /-- `to_tsvector('english', body) @@ plainto_tsquery('english', query)`. -/
  bodyMatches : String → String → Bool
  tsRankCd : String → String → S
  encodeOne : String → E
  /-- `<=>`. -/
  distance : E → E → S
  /-- `1 - distance`. -/
  similarity : S → S
  /-- To the nearest double. -/
  round : Rat → Rat

/-- Whose memories a search may return. -/
structure MemoryEligibility where
  tenantId : Nat
  principalSub : String
  kinds : List String
  principalSub_ne : principalSub ≠ ""
  kinds_ne : kinds ≠ []

structure SearchCall where
  tenantId : Nat
  query : String
  source : Option String
  kind : Option String
  limit : Int
  metadataFilters : Option Dict
  principalSub : Option String
  memoryEligibility : Option MemoryEligibility
  allPrincipals : Bool

def rrfK : Nat := 60

def candidateLimit : Nat := 50

def userScopedMemoryKinds : List String := ["memory-user", "memory-user-tenant", "memory-user-target"]

/-! ## Conditions of the candidate statements -/

section Conditions
variable {E S : Type} (srv : Server E S)

/-- `metadata ->> key`. -/
def fieldText (metadata : Json) (key : String) : Option String :=
  match metadata with
  | .obj fields =>
    match dictGet fields key with
    | none | some .null => none
    | some (.str s) => some s
    | some v => some (srv.jsonText v)
  | _ => none

/-- `Z` or an offset, to the end of the text. -/
def isZone : List Char → Bool
  | ['Z'] => true
  | [sign, a, b] => (sign = '+' || sign = '-') && [a, b].all isDigit
  | [sign, a, b, c, d] => (sign = '+' || sign = '-') && [a, b, c, d].all isDigit
  | [sign, a, b, ':', c, d] => (sign = '+' || sign = '-') && [a, b, c, d].all isDigit
  | _ => false

/-- What may follow the minutes: seconds with a fraction, and a zone. -/
def clockRest : List Char → Bool
  | ':' :: a :: b :: '.' :: rest =>
    let digits := (rest.takeWhile isDigit).length
    let zone := rest.drop digits
    [a, b].all isDigit && 1 ≤ digits && digits ≤ 6 && (zone.isEmpty || isZone zone)
  | ':' :: a :: b :: zone => [a, b].all isDigit && (zone.isEmpty || isZone zone)
  | zone => zone.isEmpty || isZone zone

/-- `_MEMORY_EXPIRY_SHAPE_SQL`. -/
def expiryShape : List Char → Bool
  | y₁ :: y₂ :: y₃ :: y₄ :: '-' :: m₁ :: m₂ :: '-' :: d₁ :: d₂ :: t :: h₁ :: h₂ :: ':' :: n₁ :: n₂ ::
      rest =>
    [y₁, y₂, y₃, y₄, m₁, m₂, d₁, d₂, h₁, h₂, n₁, n₂].all isDigit && (t = 'T' || t = ' ') &&
      clockRest rest
  | _ => false

/-- The text ends in a zone. -/
def hasZone (text : List Char) : Bool := text.tails.any isZone

/-- The CASE over `metadata ->> 'expires_at'`. -/
def unexpired (now : Time) (metadata : Json) : Bool :=
  match fieldText srv metadata "expires_at" with
  | none => true
  | some text =>
    if !expiryShape text.toList then false
    else if !srv.validTimestamptz text then false
    else if hasZone text.toList then decide (now < srv.timestamptz text)
    else decide (now < srv.timestamp text)

/-- What both statements bind. -/
structure Binds where
  tenantId : Nat
  query : String
  source : Option String
  kind : Option String
  metadataFilters : Option Dict
  principalSub : Option String
  memoryKinds : Option (List String)

/-- A kb head is no candidate once its entry has passages. -/
def hasPassage (docs : List (Document E)) (d : Document E) : Bool :=
  docs.any fun passage =>
    passage.tenantId = d.tenantId && passage.source = "kb-passage" &&
      srv.contains passage.metadata
        (.obj [("kb_passage", .obj [("entry_id", .str (srv.idText d.id))])])

def kbPassageMapping (b : Binds) (docs : List (Document E)) (d : Document E) : Bool :=
  (b.source.all (d.source = ·) || (b.source = some "kb" && d.source = "kb-passage")) &&
    (b.kind.all (d.kind = ·) || (b.kind = some "kb-entry" && d.kind = "kb-passage")) &&
    !(d.source = "kb" && hasPassage srv docs d)

def principalPredicate (b : Binds) (d : Document E) : Bool :=
  b.principalSub.isNone || d.source ≠ "memory" || d.kind ∉ userScopedMemoryKinds ||
    (fieldText srv d.metadata "user_sub").any (some · = b.principalSub)

def memoryEligibilityPredicate (b : Binds) (now : Time) (d : Document E) : Bool :=
  d.source ≠ "memory" || b.memoryKinds.all (d.kind ∈ ·) && unexpired srv now d.metadata

/-- The conditions that the two statements share. -/
def isCandidate (b : Binds) (now : Time) (docs : List (Document E)) (d : Document E) : Bool :=
  d.tenantId = b.tenantId && kbPassageMapping srv b docs d &&
    b.metadataFilters.all (fun filters => srv.contains d.metadata (.obj filters)) &&
    principalPredicate srv b d && memoryEligibilityPredicate srv b now d

/-! ## Candidates -/

/-- A document under one signal's score. -/
structure Candidate (S : Type) where
  id : Nat
  score : S

variable [LinearOrder S]

def bm25Key (b : Binds) (d : Document E) : Lex (Sᵒᵈ × Nat) :=
  toLex (OrderDual.toDual (srv.tsRankCd d.body b.query), d.id)

def bm25Candidates (b : Binds) (now : Time) (docs : List (Document E)) : List (Candidate S) :=
  ((orderBy (bm25Key srv b) (docs.filter fun d =>
    isCandidate srv b now docs d && srv.bodyMatches d.body b.query)).take candidateLimit).map
      fun d => ⟨d.id, srv.tsRankCd d.body b.query⟩

def cosineKey (b : Binds) (d : Document E) : Lex (S × Nat) :=
  toLex (srv.distance d.embedding (srv.encodeOne b.query), d.id)

def cosineCandidates (b : Binds) (now : Time) (docs : List (Document E)) : List (Candidate S) :=
  ((orderBy (cosineKey srv b) (docs.filter fun d => isCandidate srv b now docs d)).take
    candidateLimit).map
      fun d => ⟨d.id, srv.similarity (srv.distance d.embedding (srv.encodeOne b.query))⟩

end Conditions

/-! ## Fusion -/

/-- A document under the fused score. -/
structure FusedEntry (S : Type) where
  documentId : Nat
  fusedScore : Rat
  bm25Score : Option S
  cosineScore : Option S
  bm25Rank : Option Nat
  cosineRank : Option Nat

section Fusion
variable {S : Type} (round : Rat → Rat)

/-- The entry of a row takes the row's score and rank, at the end if it is new. -/
def credit (note : FusedEntry S → S → Nat → FusedEntry S) (entries : List (FusedEntry S))
    (row : Candidate S × Nat) : List (FusedEntry S) :=
  let bump (e : FusedEntry S) : FusedEntry S :=
    { note e row.1.score row.2 with
      documentId := e.documentId
      fusedScore := round (e.fusedScore + round (1 / (rrfK + row.2 : Nat))) }
  if entries.any (·.documentId = row.1.id) then
    entries.map fun e => if e.documentId = row.1.id then bump e else e
  else entries ++ [bump ⟨row.1.id, 0, none, none, none, none⟩]

def noteBm25 (e : FusedEntry S) (score : S) (rank : Nat) : FusedEntry S :=
  { e with bm25Score := some score, bm25Rank := some rank }

def noteCosine (e : FusedEntry S) (score : S) (rank : Nat) : FusedEntry S :=
  { e with cosineScore := some score, cosineRank := some rank }

/-- Sorted by the fused score, the highest first; `sorted` keeps the order of equal ones. -/
def rrfFuse (bm25Rows cosineRows : List (Candidate S)) (limit : Nat) : List (FusedEntry S) :=
  let entries := (bm25Rows.zipIdx 1).foldl (credit round noteBm25) []
  let entries := (cosineRows.zipIdx 1).foldl (credit round noteCosine) entries
  (orderBy (fun e => OrderDual.toDual e.fusedScore) entries).take limit

end Fusion

/-! ## Retrieval -/

structure RetrievalHit (S : Type) where
  documentId : Nat
  tenantId : Nat
  source : String
  sourceId : String
  kind : String
  body : String
  docMetadata : Json
  createdAt : Time
  updatedAt : Time
  fusedScore : Rat
  bm25Score : Option S
  cosineScore : Option S
  bm25Rank : Option Nat
  cosineRank : Option Nat

def hitOf {E S : Type} (doc : Document E) (entry : FusedEntry S) : RetrievalHit S where
  documentId := doc.id
  tenantId := doc.tenantId
  source := doc.source
  sourceId := doc.sourceId
  kind := doc.kind
  body := doc.body
  docMetadata := doc.metadata
  createdAt := doc.createdAt
  updatedAt := doc.updatedAt
  fusedScore := entry.fusedScore
  bm25Score := entry.bm25Score
  cosineScore := entry.cosineScore
  bm25Rank := entry.bm25Rank
  cosineRank := entry.cosineRank

/-- One SELECT by the ids alone; an id without a row is left out. -/
def hydrateHits {E S : Type} (docs : List (Document E)) (fused : List (FusedEntry S)) :
    List (RetrievalHit S) :=
  let topIds := fused.map (·.documentId)
  let found := docs.filter (·.id ∈ topIds)
  fused.filterMap fun entry => (found.find? (·.id = entry.documentId)).map (hitOf · entry)

def requireMemoryPrincipal (call : SearchCall) : Except String Unit :=
  if call.source.any (· ≠ "memory") || call.allPrincipals then .ok ()
  else if call.principalSub.isNone && call.memoryEligibility.isNone then
    .error ("a memory search needs principal_sub or memory_eligibility; " ++
      "pass all_principals=True to rank every principal's memories")
  else .ok ()

def memoryKindsFor (call : SearchCall) : Except String (Option (List String)) :=
  match call.memoryEligibility with
  | none => .ok none
  | some eligibility =>
    if eligibility.tenantId ≠ call.tenantId then
      .error "memory_eligibility.tenant_id does not match tenant_id"
    else if call.principalSub.any (· ≠ eligibility.principalSub) then
      .error "principal_sub does not match memory_eligibility.principal_sub"
    else .ok (some eligibility.kinds)

/-- An empty filter is none, and an eligibility names the principal. -/
def SearchCall.binds (call : SearchCall) (memoryKinds : Option (List String)) : Binds where
  tenantId := call.tenantId
  query := call.query
  source := call.source
  kind := call.kind
  metadataFilters := call.metadataFilters.filter (!·.isEmpty)
  principalSub := (call.memoryEligibility.map (·.principalSub)).or call.principalSub
  memoryKinds := memoryKinds

/-- A call at the time `now`, over the rows that all its statements see. -/
def retrieve {E S : Type} [LinearOrder S] (srv : Server E S) (now : Time) (corpus : Corpus E)
    (call : SearchCall) : Except String (List (RetrievalHit S)) :=
  if call.limit < 0 then .error ("limit must be >= 0; got " ++ toString call.limit)
  else do
    requireMemoryPrincipal call
    if call.limit = 0 then return []
    let memoryKinds ← memoryKindsFor call
    let binds := call.binds memoryKinds
    let fused := rrfFuse srv.round (bm25Candidates srv binds now corpus.docs)
      (cosineCandidates srv binds now corpus.docs) call.limit.toNat
    return hydrateHits corpus.docs fused

end Meho.Retrieval
