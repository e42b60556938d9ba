import Meho.Bind9.ZoneTarget

/- The delete of a single DNS record (connectors/bind9/ops_record.py), and its preview for the
approver (connectors/bind9/ops_record_delete_preview.py).

Both open the zone's file in the same way and look for the record by one function. The handler
goes on only from a target that is unique (`Unique`); it takes that value out of its set, moves
the serial one step and hands the text of the zone on to be staged. `record_delete` says what a
staged text holds, set by set, and what the preview said of it.

dnspython is the parameter `Dns`, with what is used of it in `Dns.Documented`. Of a remote
command only its result is here; of the command that verifies a write only the serial it reads
from the staged text.

Correspondence: each function keeps its name. -/
namespace Meho.Bind9

/-! ## dnspython -/

inductive RdType where
  | a
  | aaaa
  | soa
  | other (mnemonic : String)
  deriving DecidableEq, Repr

/-- The records of one name and type, as a set in the order they came. -/
structure Rdataset (Rdata : Type) where
  ttl : Nat
  items : List Rdata
  nodup : items.Nodup
  deriving DecidableEq

/-- The fields of an SOA record, its names as they are written. -/
structure Soa where
  mname : String
  rname : String
  serial : Nat
  refresh : Nat
  retry : Nat
  expire : Nat
  minimum : Nat
  deriving DecidableEq, Repr

def Soa.text (s : Soa) : String :=
  s.mname ++ " " ++ s.rname ++ " " ++ toString s.serial ++ " " ++ toString s.refresh ++ " " ++
    toString s.retry ++ " " ++ toString s.expire ++ " " ++ toString s.minimum

/-- The step from one serial to the next. -/
def Soa.bumped (s : Soa) : Soa := { s with serial := s.serial + 1 }

/-- The functions of dnspython that the delete calls. -/
structure Dns (Name Rdata Zone : Type) where
  /-- `dns.zone.from_text` of a text and an origin. -/
  zoneFromText : String → String → Except String Zone
  zoneToText : Zone → String
  nameFromText : String → Except String Name
  rdataFromText : RdType → String → Except String Rdata
  rdataToText : Rdata → String
  soaOf : Rdata → Soa
  origin : Zone → Name
  getRdataset : Zone → Name → RdType → Option (Rdataset Rdata)
  /-- The zone after its set for a name and type was changed in place. -/
  setRdataset : Zone → Name → RdType → Rdataset Rdata → Zone
  deleteRdataset : Zone → Name → RdType → Zone

/-- The types that are deleted. -/
inductive RecordType where
  | a
  | aaaa
  deriving DecidableEq, Repr

def RecordType.text : RecordType → String
  | .a => "A"
  | .aaaa => "AAAA"

def RecordType.rdtype : RecordType → RdType
  | .a => .a
  | .aaaa => .aaaa

def writeSupportedTypes : List RecordType := [.a, .aaaa]

def supported (recordType : String) : Option RecordType :=
  writeSupportedTypes.find? (·.text = recordType)

/-- What the code relies on of dnspython. -/
structure Dns.Documented {Name Rdata Zone : Type} [DecidableEq Name] (dns : Dns Name Rdata Zone) :
    Prop where
  get_set : ∀ {z n t old} (new : Rdataset Rdata), dns.getRdataset z n t = some old → ∀ n' t',
    dns.getRdataset (dns.setRdataset z n t new) n' t' =
      if n' = n ∧ t' = t then some new else dns.getRdataset z n' t'
  get_delete : ∀ z n t n' t', dns.getRdataset (dns.deleteRdataset z n t) n' t' =
    if n' = n ∧ t' = t then none else dns.getRdataset z n' t'
  origin_set : ∀ z n t new, dns.origin (dns.setRdataset z n t new) = dns.origin z
  origin_delete : ∀ z n t, dns.origin (dns.deleteRdataset z n t) = dns.origin z
  /-- The text of an address that stands in a file is read as that address. -/
  rdata_text : ∀ {text o z n rds rd} (t : RecordType), dns.zoneFromText text o = .ok z →
    dns.getRdataset z n t.rdtype = some rds → rd ∈ rds.items →
      dns.rdataFromText t.rdtype (dns.rdataToText rd) = .ok rd
  empty_rdata : ∀ (t : RecordType) rd, dns.rdataFromText t.rdtype "" ≠ .ok rd
  /-- A file has one SOA record at its origin. -/
  soa_single : ∀ {text o z rds}, dns.zoneFromText text o = .ok z →
    dns.getRdataset z (dns.origin z) .soa = some rds → rds.items.length = 1
  /-- SOA fields are read as they were written, the serial as a number of 32 bits. -/
  soa_text : ∀ {text o z rds old} (serial : Nat) {new}, dns.zoneFromText text o = .ok z →
    dns.getRdataset z (dns.origin z) .soa = some rds → old ∈ rds.items →
    dns.rdataFromText .soa { dns.soaOf old with serial := serial }.text = .ok new →
      dns.soaOf new = { dns.soaOf old with serial := serial } ∧ serial < 2 ^ 32

/-- What a handler raises. -/
inductive Raised where
  | valueError (message : String)
  | dnsException (message : String)
  | remoteCommandError (message : String)
  | keyError
  | indexError
  deriving DecidableEq, Repr

/-- `name if name.endswith(".") else name + "."`. -/
def absoluteName (name : String) : String :=
  if name.toList.getLast? = some '.' then name else name ++ "."

/-! ## The record that is asked for -/

inductive TargetStatus where
  | ok (targetRdata : String)
  | notFound
  | ambiguous
  deriving DecidableEq, Repr

section Record
variable {Name Rdata Zone : Type} (dns : Dns Name Rdata Zone) (repr : String → String)

def canonRdata (t : RecordType) (value : String) : Except String String :=
  (dns.rdataFromText t.rdtype value).map dns.rdataToText

/-- The same text, or the same record. -/
def rdataMatches (t : RecordType) (candidate target : String) : Bool :=
  if candidate = target then true
  else
    match canonRdata dns t candidate, canonRdata dns t target with
    | .ok canonCandidate, .ok canonTarget => canonCandidate = canonTarget
    | _, _ => false

/-- How both functions open a zone's file: the zone, the name and its set of the type. -/
def openRrset (zonefileText zoneName fqdn : String) (t : RecordType) :
    Except String (Zone × Name × Option (Rdataset Rdata)) := do
  let zone ← dns.zoneFromText zonefileText (absoluteName zoneName)
  let name ← dns.nameFromText (absoluteName fqdn)
  return (zone, name, dns.getRdataset zone name t.rdtype)

def findRecordMatches (zonefileText zoneName fqdn : String) (t : RecordType) :
    Except String (List String) :=
  (openRrset dns zonefileText zoneName fqdn t).map fun opened =>
    match opened.2.2 with
    | none => []
    | some rds => (rds.items.map dns.rdataToText).mergeSort fun a b => decide (a ≤ b)

def resolveDeleteTarget (found : List String) (t : RecordType) (rdataParam : Option String) :
    TargetStatus :=
  match found with
  | [] => .notFound
  | first :: others =>
    match rdataParam with
    | some value =>
      match found.filter (rdataMatches dns t value) with
      | [hit] => .ok hit
      | [] => .notFound
      | _ :: _ :: _ => .ambiguous
    | none => if others = [] then .ok first else .ambiguous

/-! ## The zone without it -/

def bumpSoaSerial (zone : Zone) : Except Raised Zone :=
  match dns.getRdataset zone (dns.origin zone) .soa with
  | none => .error .keyError
  | some soaRds =>
    match soaRds.items with
    | [] => .error .indexError
    | oldSoa :: _ =>
      match dns.rdataFromText .soa (dns.soaOf oldSoa).bumped.text with
      | .error message => .error (.dnsException message)
      | .ok newSoa =>
        .ok (dns.setRdataset zone (dns.origin zone) .soa ⟨soaRds.ttl, [newSoa], by simp⟩)

variable [DecidableEq Rdata]

def Rdataset.remove {Rdata : Type} [DecidableEq Rdata] (rds : Rdataset Rdata) (victim : Rdata) :
    Rdataset Rdata :=
  ⟨rds.ttl, rds.items.erase victim, rds.nodup.sublist List.erase_sublist⟩

/-- `rds.remove(victim)`, and the set goes with its last value. -/
def removeVictim (zone : Zone) (name : Name) (t : RdType) (rds : Rdataset Rdata) (victim : Rdata) :
    Zone :=
  let removed := dns.setRdataset zone name t (rds.remove victim)
  if (rds.remove victim).items.length = 0 then dns.deleteRdataset removed name t else removed

def deleteOneRecordFromZonefile (zonefileText zoneName fqdn : String) (t : RecordType)
    (rdata : String) : Except Raised String :=
  match openRrset dns zonefileText zoneName fqdn t with
  | .error message => .error (.dnsException message)
  | .ok (_, _, none) =>
    .error (.valueError ("no " ++ t.text ++ " rrset at " ++ repr fqdn ++ " to delete from"))
  | .ok (zone, name, some rds) =>
    match rds.items.find? fun rd => rdataMatches dns t rdata (dns.rdataToText rd) with
    | none =>
      .error (.valueError (t.text ++ " value " ++ repr rdata ++ " not present at " ++ repr fqdn))
    | some victim =>
      (bumpSoaSerial dns (removeVictim dns zone name t.rdtype rds victim)).map dns.zoneToText

end Record

/-! ## The handler -/

/-- The results of the remote commands of one call. -/
structure Server where
  sudoPassword : Except Raised String
  /-- `named-checkconf -p`, parsed. -/
  namedCheckconf : Except String (List ZoneRow)
  /-- `cat` of a path. -/
  cat : String → Except String String

structure DeleteParams where
  fqdn : String
  type : String
  rdata : Option String
  zone : Option String
  view : Option String

inductive RefusalStatus where
  | unmanagedZone
  | notFound
  | ambiguous
  deriving DecidableEq, Repr

structure Refusal where
  status : RefusalStatus
  deleted : Bool
  fqdn : String
  type : String
  rdata : Option String
  zone : Option String
  view : Option String
  candidates : List String
  guidance : String
  deriving DecidableEq, Repr

def deleteRefusal (status : RefusalStatus) (fqdn : String) (t : RecordType)
    (rdata zone view : Option String) (guidance : String) (candidates : List String) : Refusal :=
  ⟨status, false, fqdn, t.text, rdata, zone, view, candidates, guidance⟩

/-- What is handed on to be applied. -/
structure Staged where
  zoneName : String
  zonefilePath : String
  view : Option String
  sudoPassword : String
  targetRdata : String
  newText : String
  serial : Option Nat
  deriving DecidableEq, Repr

inductive DeleteResult where
  | refused (refusal : Refusal)
  | staged (staged : Staged)
  deriving DecidableEq, Repr

section Handler
variable {Name Rdata Zone : Type} (dns : Dns Name Rdata Zone) [DecidableEq Rdata]
  (lower upper repr : String → String)

/-- `_soa_serial_from_text`, which a view's verify command reads. -/
def soaSerialFromText (zonefileText zoneName : String) : Except Raised Nat :=
  match dns.zoneFromText zonefileText (absoluteName zoneName) with
  | .error message => .error (.dnsException message)
  | .ok zone =>
    match dns.getRdataset zone (dns.origin zone) .soa with
    | none => .error .keyError
    | some soaRds =>
      match soaRds.items with
      | [] => .error .indexError
      | soa :: _ => .ok (dns.soaOf soa).serial

/-- The serial that the verify command of a view waits for. -/
def verifySerial (explicitView : Option String) (newText zoneName : String) :
    Except Raised (Option Nat) :=
  match explicitView with
  | some _ => (soaSerialFromText dns newText zoneName).map some
  | none => .ok none

/-- The text for the zone's file. What goes wrong while it is made is a `ValueError`, a missing
SOA record apart. -/
def transformZonefile (currentText zoneName fqdn : String) (t : RecordType) (target : String) :
    Except Raised String :=
  match deleteOneRecordFromZonefile dns repr currentText zoneName fqdn t target with
  | .ok newText => .ok newText
  | .error (.dnsException message) | .error (.valueError message) =>
    .error (.valueError ("failed to transform zonefile for zone " ++ repr zoneName ++ ": " ++
      message))
  | .error e => .error e

/-- The handler from the place where the zone's file was read. -/
def deleteFromText (params : DeleteParams) (t : RecordType) (sudoPassword zoneName path : String)
    (view : Option String) (currentText : String) : Except Raised DeleteResult :=
  match findRecordMatches dns currentText zoneName params.fqdn t with
  | .error message =>
    .error (.valueError ("failed to parse zonefile for zone " ++ repr zoneName ++ ": " ++ message))
  | .ok found =>
    match resolveDeleteTarget dns found t params.rdata with
    | .notFound =>
      let detail := (params.rdata.map fun value => " with rdata " ++ repr value).getD ""
      .ok (.refused (deleteRefusal .notFound params.fqdn t params.rdata zoneName view
        ("no " ++ t.text ++ " record at " ++ repr params.fqdn ++ detail ++ " in zone " ++
          repr zoneName ++ "; nothing deleted") []))
    | .ambiguous =>
      .ok (.refused (deleteRefusal .ambiguous params.fqdn t params.rdata zoneName view
        (repr params.fqdn ++ " carries " ++ toString found.length ++ " " ++ t.text ++
          " records (" ++ ", ".intercalate found ++
          "); pass ``rdata`` to name the single record to delete — this op never deletes " ++
          "more than one") found))
    | .ok target => do
      let newText ← transformZonefile dns repr currentText zoneName params.fqdn t target
      let serial ← verifySerial dns params.view newText zoneName
      return .staged ⟨zoneName, path, view, sudoPassword, target, newText, serial⟩

def bind9RecordDelete (server : Server) (params : DeleteParams) : Except Raised DeleteResult :=
  match supported (upper params.type) with
  | none =>
    .error (.valueError ("record.delete only supports A / AAAA; got type=" ++
      repr (upper params.type) ++ ". CNAME / MX / TXT deletes are out of scope."))
  | some t => do
    let sudoPassword ← server.sudoPassword
    let rows ← server.namedCheckconf.mapError .remoteCommandError
    match resolveZoneTarget lower rows params.fqdn params.zone params.view with
    | .error e =>
      return .refused (deleteRefusal .unmanagedZone params.fqdn t params.rdata params.zone
        params.view (e.describe repr) e.candidates)
    | .ok (zoneName, path, view) =>
      let currentText ← (server.cat path).mapError .remoteCommandError
      deleteFromText dns repr params t sudoPassword zoneName path view currentText

end Handler

/-! ## The preview -/

/-- The record as the approver sees it. -/
structure CardObject where
  zone : String
  name : String
  type : String
  view : Option String
  rdata : Option String
  deriving DecidableEq, Repr

/-- The preview's card for the records that go. -/
structure BlastRadius where
  object : CardObject
  /-- The `rdata` of the children, whose type is the object's. -/
  children : List String
  irreversibility : String
  matchCount : Nat
  deriving DecidableEq, Repr

section Preview
variable {Name Rdata Zone : Type} (dns : Dns Name Rdata Zone) (lower upper : String → String)

/-- `rdata_param`, if it is true. -/
def pinned (rdata : Option String) : Option String := rdata.filter (· ≠ "")

def previewOfText (params : DeleteParams) (t : RecordType) (zoneName : String)
    (view : Option String) (currentText : String) : Option BlastRadius :=
  match findRecordMatches dns currentText zoneName params.fqdn t with
  | .error _ => none
  | .ok found =>
    let removed :=
      match pinned params.rdata with
      | some value => found.filter (rdataMatches dns t value)
      | none => found
    some ⟨⟨zoneName, absoluteName params.fqdn, t.text, view, pinned params.rdata⟩, found,
      "recreatable", removed.length⟩

def bind9RecordDeletePreview (server : Server) (params : DeleteParams) : Option BlastRadius :=
  match supported (upper params.type), server.namedCheckconf with
  | some t, .ok rows =>
    match resolveZoneTarget lower rows params.fqdn params.zone params.view with
    | .error _ => none
    | .ok (zoneName, path, view) =>
      match server.cat path with
      | .error _ => none
      | .ok currentText => previewOfText dns params t zoneName view currentText
  | _, _ => none

end Preview

/-! ## The records by their texts -/

section Texts
variable {Name Rdata Zone : Type} {dns : Dns Name Rdata Zone}
  {text fqdn zoneName origin : String} {zone : Zone} {name : Name} {t : RecordType}
  {rds : Rdataset Rdata}

theorem openRrset_ok {set : Option (Rdataset Rdata)}
    (h : openRrset dns text zoneName fqdn t = .ok (zone, name, set)) :
    dns.zoneFromText text (absoluteName zoneName) = .ok zone ∧
      dns.nameFromText (absoluteName fqdn) = .ok name ∧
        dns.getRdataset zone name t.rdtype = set := by
  unfold openRrset at h
  cases hzone : dns.zoneFromText text (absoluteName zoneName) with
  | error e =>
    rw [hzone] at h
    cases h
  | ok zone' =>
    cases hname : dns.nameFromText (absoluteName fqdn) with
    | error e =>
      rw [hzone, hname] at h
      cases h
    | ok name' =>
      rw [hzone, hname] at h
      cases h
      exact ⟨rfl, rfl, rfl⟩

/-- The texts of a set, as both sides list them. -/
def Lists (dns : Dns Name Rdata Zone) (rds : Rdataset Rdata) (found : List String) : Prop :=
  found.Perm (rds.items.map dns.rdataToText)

theorem findRecordMatches_ok {found : List String} {value : String}
    (h : findRecordMatches dns text zoneName fqdn t = .ok found) (hvalue : value ∈ found) :
    ∃ zone name rds, openRrset dns text zoneName fqdn t = .ok (zone, name, some rds) ∧
      Lists dns rds found := by
  unfold findRecordMatches at h
  cases hopen : openRrset dns text zoneName fqdn t with
  | error e =>
    rw [hopen] at h
    cases h
  | ok opened =>
    obtain ⟨zone, name, set⟩ := opened
    rw [hopen] at h
    cases set with
    | none =>
      cases h
      cases hvalue
    | some rds =>
      cases h
      exact ⟨zone, name, rds, rfl, List.mergeSort_perm _ _⟩

variable [DecidableEq Name]

section
variable (hdns : dns.Documented) (hzone : dns.zoneFromText text origin = .ok zone)
    (hrds : dns.getRdataset zone name t.rdtype = some rds) {rd : Rdata} (hrd : rd ∈ rds.items)
include hdns hzone hrds hrd

theorem canonRdata_mem : canonRdata dns t (dns.rdataToText rd) = .ok (dns.rdataToText rd) := by
  rw [canonRdata, hdns.rdata_text t hzone hrds hrd]
  rfl

theorem rdataToText_inj {rd' : Rdata} (hrd' : rd' ∈ rds.items)
    (htext : dns.rdataToText rd = dns.rdataToText rd') : rd = rd' := by
  have hread := hdns.rdata_text t hzone hrds hrd
  rw [htext, hdns.rdata_text t hzone hrds hrd'] at hread
  exact (Except.ok.inj hread).symm

theorem rdataMatches_stored {rd' : Rdata} (hrd' : rd' ∈ rds.items) :
    rdataMatches dns t (dns.rdataToText rd) (dns.rdataToText rd') = true ↔ rd = rd' := by
  unfold rdataMatches
  rw [canonRdata_mem hdns hzone hrds hrd, canonRdata_mem hdns hzone hrds hrd']
  constructor
  · intro h
    refine rdataToText_inj hdns hzone hrds hrd hrd' ?_
    split at h
    · assumption
    · exact of_decide_eq_true h
  · intro h
    rw [if_pos (congrArg dns.rdataToText h)]

end

end Texts

/-! ## The unique target -/

/-- What the call asks of a value of the name and type. -/
def Asked {Name Rdata Zone : Type} (dns : Dns Name Rdata Zone) (t : RecordType)
    (rdataParam : Option String) (value : String) : Prop :=
  ∀ wanted, rdataParam = some wanted → rdataMatches dns t wanted value = true

/-- The call asks for this value and for no other one. -/
structure Unique {Name Rdata Zone : Type} (dns : Dns Name Rdata Zone) (t : RecordType)
    (rdataParam : Option String) (found : List String) (target : String) : Prop where
  mem : target ∈ found
  asked : Asked dns t rdataParam target
  only : ∀ value ∈ found, Asked dns t rdataParam value → value = target
  count : (match rdataParam with
    | some wanted => found.filter (rdataMatches dns t wanted)
    | none => found).length = 1

section
variable {Name Rdata Zone : Type} {dns : Dns Name Rdata Zone} {t : RecordType}
    {rdataParam : Option String} {found : List String} {target : String}

theorem resolveDeleteTarget_ok (h : resolveDeleteTarget dns found t rdataParam = .ok target) :
    Unique dns t rdataParam found target := by
  unfold resolveDeleteTarget at h
  cases found with
  | nil => cases h
  | cons first others =>
    cases rdataParam with
    | none =>
      dsimp only at h
      split at h
      · rename_i hothers
        cases h
        subst hothers
        exact ⟨List.mem_cons_self, nofun, fun value hvalue _ => List.mem_singleton.mp hvalue, rfl⟩
      · cases h
    | some wanted =>
      cases hhits : (first :: others).filter (rdataMatches dns t wanted) with
      | nil =>
        simp only [hhits] at h
        cases h
      | cons hit more =>
        cases more with
        | cons hit' more =>
          simp only [hhits] at h
          cases h
        | nil =>
          simp only [hhits] at h
          cases h
          have hmem : target ∈ (first :: others).filter (rdataMatches dns t wanted) := by
            rw [hhits]
            exact List.mem_cons_self
          obtain ⟨hin, hmatch⟩ := List.mem_filter.mp hmem
          refine ⟨hin, ?_, ?_, ?_⟩
          · intro wanted' hwanted
            cases hwanted
            exact hmatch
          · intro value hvalue hasked
            have hvalue' := List.mem_filter.mpr ⟨hvalue, hasked wanted rfl⟩
            rw [hhits] at hvalue'
            exact List.mem_singleton.mp hvalue'
          · simp only [hhits, List.length_cons, List.length_nil]

theorem Unique.pinned [DecidableEq Name] (hdns : dns.Documented)
    (h : Unique dns t rdataParam found target) {rd : Rdata}
    (hread : dns.rdataFromText t.rdtype target = .ok rd) : pinned rdataParam = rdataParam := by
  cases hparam : rdataParam with
  | none => rfl
  | some wanted =>
    have hmatch := h.asked wanted hparam
    have hne : wanted ≠ "" := by
      rintro rfl
      unfold rdataMatches at hmatch
      split at hmatch
      · rename_i hsame
        exact hdns.empty_rdata t rd (hsame ▸ hread)
      · cases hempty : dns.rdataFromText t.rdtype "" with
        | error e =>
          rw [canonRdata, hempty] at hmatch
          cases hmatch
        | ok rd' => exact hdns.empty_rdata t rd' hempty
    rw [Meho.Bind9.pinned, Option.filter_some, if_pos (decide_eq_true hne)]

end

/-! ## The zone that is staged -/

section Edit
variable {Name Rdata Zone : Type} [DecidableEq Name] [DecidableEq Rdata]
  {dns : Dns Name Rdata Zone}

/-- A zone with one record less and the next serial. -/
structure OneRemoved (dns : Dns Name Rdata Zone) (before after : Zone) (name : Name) (t : RdType)
    (rds : Rdataset Rdata) (victim : Rdata) : Prop where
  removed : dns.getRdataset after name t =
    if rds.items = [victim] then none else some (rds.remove victim)
  serial : ∃ soaRds newSoaRds old new, dns.getRdataset before (dns.origin before) .soa = some soaRds ∧
    dns.getRdataset after (dns.origin before) .soa = some newSoaRds ∧
    soaRds.items = [old] ∧ newSoaRds.items = [new] ∧ newSoaRds.ttl = soaRds.ttl ∧
    dns.soaOf new = (dns.soaOf old).bumped ∧ (dns.soaOf new).serial < 2 ^ 32
  kept : ∀ n' t', ¬(n' = name ∧ t' = t) → ¬(n' = dns.origin before ∧ t' = .soa) →
    dns.getRdataset after n' t' = dns.getRdataset before n' t'

theorem erase_empty_iff {items : List Rdata} {victim : Rdata} (h : victim ∈ items) :
    (items.erase victim).length = 0 ↔ items = [victim] := by
  rw [List.length_erase_of_mem h]
  constructor
  · intro hlength
    match items with
    | [] => cases h
    | [rd] => rw [List.mem_singleton.mp h]
    | rd :: rd' :: rest =>
      simp only [List.length_cons] at hlength
      omega
  · intro hitems
    rw [hitems]
    rfl

theorem removeVictim_get (hdns : dns.Documented) {zone : Zone} {name : Name} {t : RdType}
    {rds : Rdataset Rdata} {victim : Rdata} (hrds : dns.getRdataset zone name t = some rds)
    (hvictim : victim ∈ rds.items) (n' : Name) (t' : RdType) :
    dns.getRdataset (removeVictim dns zone name t rds victim) n' t' =
      if n' = name ∧ t' = t then
        if rds.items = [victim] then none else some (rds.remove victim)
      else dns.getRdataset zone n' t' := by
  have hempty : (rds.remove victim).items.length = 0 ↔ rds.items = [victim] :=
    erase_empty_iff hvictim
  unfold removeVictim
  simp only [hempty]
  by_cases hlast : rds.items = [victim]
  · rw [if_pos hlast, hdns.get_delete, hdns.get_set _ hrds]
    split
    · rfl
    · rfl
  · rw [if_neg hlast, if_neg hlast, hdns.get_set _ hrds]

theorem removeVictim_origin (hdns : dns.Documented) (zone : Zone) (name : Name) (t : RdType)
    (rds : Rdataset Rdata) (victim : Rdata) :
    dns.origin (removeVictim dns zone name t rds victim) = dns.origin zone := by
  unfold removeVictim
  dsimp only
  split
  · rw [hdns.origin_delete, hdns.origin_set]
  · rw [hdns.origin_set]

omit [DecidableEq Name] [DecidableEq Rdata] in
theorem bumpSoaSerial_ok {zone after : Zone} (h : bumpSoaSerial dns zone = .ok after) :
    ∃ soaRds old others new newSoaRds, dns.getRdataset zone (dns.origin zone) .soa = some soaRds ∧
      soaRds.items = old :: others ∧
      dns.rdataFromText .soa (dns.soaOf old).bumped.text = .ok new ∧
      newSoaRds.ttl = soaRds.ttl ∧ newSoaRds.items = [new] ∧
      after = dns.setRdataset zone (dns.origin zone) .soa newSoaRds := by
  unfold bumpSoaSerial at h
  cases hsoa : dns.getRdataset zone (dns.origin zone) .soa with
  | none =>
    rw [hsoa] at h
    cases h
  | some soaRds =>
    cases hitems : soaRds.items with
    | nil =>
      simp only [hsoa, hitems] at h
      cases h
    | cons old others =>
      cases hnew : dns.rdataFromText .soa (dns.soaOf old).bumped.text with
      | error e =>
        simp only [hsoa, hitems, hnew] at h
        cases h
      | ok new =>
        simp only [hsoa, hitems, hnew] at h
        cases h
        exact ⟨soaRds, old, others, new, ⟨soaRds.ttl, [new], by simp⟩, rfl, hitems, hnew, rfl, rfl, rfl⟩

/-- Taking a record out and moving the serial on. -/
theorem oneRemoved (hdns : dns.Documented) {text origin : String} {before after : Zone}
    {name : Name} {t : RdType} {rds : Rdataset Rdata} {victim : Rdata} (ht : t ≠ .soa)
    (hzone : dns.zoneFromText text origin = .ok before)
    (hrds : dns.getRdataset before name t = some rds) (hvictim : victim ∈ rds.items)
    (h : bumpSoaSerial dns (removeVictim dns before name t rds victim) = .ok after) :
    OneRemoved dns before after name t rds victim := by
  obtain ⟨soaRds, old, others, new, newSoaRds, hsoa, hitems, hread, httl, hnew, rfl⟩ :=
    bumpSoaSerial_ok h
  have hafter := hdns.get_set newSoaRds hsoa
  simp only [removeVictim_origin hdns, removeVictim_get hdns hrds hvictim] at hafter hsoa ⊢
  rw [if_neg fun hsame => ht hsame.2.symm] at hsoa
  refine ⟨?_, ?_, ?_⟩
  · rw [hafter, if_neg fun hsame => ht hsame.2, if_pos ⟨rfl, rfl⟩]
  · have hsingle := hdns.soa_single hzone hsoa
    rw [hitems, List.length_cons] at hsingle
    have hothers : others = [] := List.length_eq_zero_iff.mp (by omega)
    subst hothers
    have hold : old ∈ soaRds.items := hitems ▸ List.mem_cons_self
    obtain ⟨hfields, hbound⟩ := hdns.soa_text _ hzone hsoa hold hread
    refine ⟨soaRds, newSoaRds, old, new, hsoa, ?_, hitems, hnew, httl, hfields, ?_⟩
    · rw [hafter, if_pos ⟨rfl, rfl⟩]
    · rw [hfields]
      exact hbound
  · intro n' t' hname hsoa'
    rw [hafter, if_neg hsoa', if_neg hname]

end Edit

/-! ## The staged delete -/

/-- What the handler hands on to be applied. -/
def stages : Except Raised DeleteResult → List Staged
  | .ok (.staged s) => [s]
  | _ => []

section Delete
variable {Name Rdata Zone : Type} [DecidableEq Rdata] {dns : Dns Name Rdata Zone}
  {lower upper repr : String → String} {server : Server} {params : DeleteParams}

section
variable {text zoneName : String} {t : RecordType}

theorem deleteOneRecordFromZonefile_ok {fqdn target newText : String} {before : Zone} {name : Name}
    {rds : Rdataset Rdata}
    (hopen : openRrset dns text zoneName fqdn t = .ok (before, name, some rds))
    (h : deleteOneRecordFromZonefile dns repr text zoneName fqdn t target = .ok newText) :
    ∃ victim after, victim ∈ rds.items ∧
      rdataMatches dns t target (dns.rdataToText victim) = true ∧
      bumpSoaSerial dns (removeVictim dns before name t.rdtype rds victim) = .ok after ∧
      newText = dns.zoneToText after := by
  unfold deleteOneRecordFromZonefile at h
  rw [hopen] at h
  cases hfind : rds.items.find? fun rd => rdataMatches dns t target (dns.rdataToText rd) with
  | none =>
    simp only [hfind] at h
    cases h
  | some victim =>
    cases hbump : bumpSoaSerial dns (removeVictim dns before name t.rdtype rds victim) with
    | error e =>
      simp only [hfind, hbump] at h
      cases h
    | ok after =>
      simp only [hfind, hbump] at h
      cases h
      refine ⟨victim, after, List.mem_of_find?_eq_some hfind, ?_, hbump, rfl⟩
      exact List.find?_some (p := fun rd => rdataMatches dns t target (dns.rdataToText rd)) hfind

theorem transformZonefile_ok {fqdn target newText : String}
    (h : transformZonefile dns repr text zoneName fqdn t target = .ok newText) :
    deleteOneRecordFromZonefile dns repr text zoneName fqdn t target = .ok newText := by
  unfold transformZonefile at h
  split at h
  · rename_i hdone
    rw [hdone, h]
  · cases h
  · cases h
  · cases h

theorem deleteFromText_ok {password path : String} {view : Option String} {result : DeleteResult}
    (h : deleteFromText dns repr params t password zoneName path view text = .ok result) :
    (∃ r, result = .refused r ∧ r.deleted = false) ∨
    ∃ s, result = .staged s ∧ s.zoneName = zoneName ∧ s.zonefilePath = path ∧ s.view = view ∧
      ∃ found, findRecordMatches dns text zoneName params.fqdn t = .ok found ∧
        Unique dns t params.rdata found s.targetRdata ∧
        deleteOneRecordFromZonefile dns repr text zoneName params.fqdn t s.targetRdata =
          .ok s.newText := by
  unfold deleteFromText at h
  cases hfound : findRecordMatches dns text zoneName params.fqdn t with
  | error e =>
    rw [hfound] at h
    cases h
  | ok found =>
    rw [hfound] at h
    cases htarget : resolveDeleteTarget dns found t params.rdata with
    | notFound =>
      simp only [htarget] at h
      cases h
      exact .inl ⟨_, rfl, rfl⟩
    | ambiguous =>
      simp only [htarget] at h
      cases h
      exact .inl ⟨_, rfl, rfl⟩
    | ok target =>
      simp only [htarget] at h
      cases htext : transformZonefile dns repr text zoneName params.fqdn t target with
      | error e =>
        rw [htext] at h
        cases h
      | ok newText =>
        rw [htext] at h
        cases hserial : verifySerial dns params.view newText zoneName with
        | error e =>
          simp only [hserial, bind, Except.bind] at h
          cases h
        | ok serial =>
          simp only [hserial, bind, Except.bind] at h
          cases h
          exact .inr ⟨_, rfl, rfl, rfl, rfl, found, rfl, resolveDeleteTarget_ok htarget,
            transformZonefile_ok htext⟩

/-- A call that returns refused, or found the zone's file and returns what its text gives. -/
theorem bind9RecordDelete_ok {result : DeleteResult}
    (h : bind9RecordDelete dns lower upper repr server params = .ok result) :
    (∃ r, result = .refused r ∧ r.deleted = false) ∨
    ∃ t password rows zoneName path view text, supported (upper params.type) = some t ∧
      server.namedCheckconf = .ok rows ∧
      resolveZoneTarget lower rows params.fqdn params.zone params.view =
        .ok (zoneName, path, view) ∧
      server.cat path = .ok text ∧
      deleteFromText dns repr params t password zoneName path view text = .ok result := by
  unfold bind9RecordDelete at h
  cases htype : supported (upper params.type) with
  | none =>
    rw [htype] at h
    cases h
  | some t =>
    cases hpassword : server.sudoPassword with
    | error e =>
      rw [htype, hpassword] at h
      cases h
    | ok password =>
      cases hrows : server.namedCheckconf with
      | error e =>
        rw [htype, hpassword, hrows] at h
        cases h
      | ok rows =>
        simp only [htype, hpassword, hrows, bind, Except.bind, Except.mapError] at h
        cases hzone : resolveZoneTarget lower rows params.fqdn params.zone params.view with
        | error e =>
          rw [hzone] at h
          cases h
          -- a record in no zone of the server is refused, not raised
          exact .inl ⟨_, rfl, rfl⟩
        | ok target =>
          obtain ⟨zoneName, path, view⟩ := target
          simp only [hzone] at h
          cases hcat : server.cat path with
          | error e =>
            rw [hcat] at h
            cases h
          | ok text =>
            rw [hcat] at h
            exact .inr ⟨t, password, rows, zoneName, path, view, text, rfl, rfl, hzone, hcat, h⟩

end

variable [DecidableEq Name]

/-- **The delete of one record.** The handler raises or refuses and stages nothing, or it stages
the text of the zone without one record: the only one of the name and type that the call asks
for. Every other set is kept, and the serial is the next one, of 32 bits. The preview of the
same call names that zone, name and type and counts one record, and among the values it lists
only the staged one is asked for. -/
theorem record_delete (hdns : dns.Documented) :
    (stages (bind9RecordDelete dns lower upper repr server params) = [] ∧
      ∀ r, bind9RecordDelete dns lower upper repr server params = .ok (.refused r) →
        r.deleted = false) ∨
    ∃ s t text before after name rds victim found,
      stages (bind9RecordDelete dns lower upper repr server params) = [s] ∧
      supported (upper params.type) = some t ∧
      server.cat s.zonefilePath = .ok text ∧
      dns.zoneFromText text (absoluteName s.zoneName) = .ok before ∧
      dns.nameFromText (absoluteName params.fqdn) = .ok name ∧
      dns.getRdataset before name t.rdtype = some rds ∧ victim ∈ rds.items ∧
      (∀ rd ∈ rds.items, Asked dns t params.rdata (dns.rdataToText rd) ↔ rd = victim) ∧
      s.newText = dns.zoneToText after ∧
      OneRemoved dns before after name t.rdtype rds victim ∧
      s.targetRdata = dns.rdataToText victim ∧
      bind9RecordDeletePreview dns lower upper server params =
        some ⟨⟨s.zoneName, absoluteName params.fqdn, t.text, s.view, params.rdata⟩, found,
          "recreatable", 1⟩ ∧
      found.Perm (rds.items.map dns.rdataToText) ∧
      ∀ value ∈ found, Asked dns t params.rdata value ↔ value = s.targetRdata := by
  cases hcall : bind9RecordDelete dns lower upper repr server params with
  | error e =>
    refine .inl ⟨rfl, fun r hr => ?_⟩
    cases hr
  | ok result =>
    obtain ⟨r, rfl, hr⟩ |
        ⟨t, password, rows, zoneName, path, view, text, htype, hrows, hzone, hcat, hresult⟩ :=
      bind9RecordDelete_ok hcall
    · refine .inl ⟨rfl, fun r' hr' => ?_⟩
      cases hr'
      exact hr
    obtain ⟨r, rfl, hr⟩ | ⟨s, rfl, rfl, rfl, rfl, found, hfound, hunique, hdelete⟩ :=
      deleteFromText_ok hresult
    · refine .inl ⟨rfl, fun r' hr' => ?_⟩
      cases hr'
      exact hr
    obtain ⟨before, name, rds, hopen, hlists⟩ := findRecordMatches_ok hfound hunique.mem
    obtain ⟨hbefore, hname, hrds⟩ := openRrset_ok hopen
    obtain ⟨victim, after, hvictim, hmatch, hbump, hnewText⟩ :=
      deleteOneRecordFromZonefile_ok hopen hdelete
    -- the text that was picked is a record of the set, and the delete takes that same record
    obtain ⟨rd, hrd, htext⟩ := List.mem_map.mp (hlists.mem_iff.mp hunique.mem)
    have hsame : rd = victim := by
      rw [← htext] at hmatch
      exact (rdataMatches_stored hdns hbefore hrds hrd hvictim).mp hmatch
    subst hsame
    have honly : ∀ value ∈ found, Asked dns t params.rdata value ↔
        value = s.targetRdata := fun value hvalue =>
      ⟨hunique.only value hvalue, fun h => h ▸ hunique.asked⟩
    refine .inr ⟨s, t, text, before, after, name, rds, rd, found, rfl, htype, hcat, hbefore,
      hname, hrds, hrd, ?_, hnewText, ?_, htext.symm, ?_, hlists, honly⟩
    · intro rd' hrd'
      rw [honly _ (hlists.mem_iff.mpr (List.mem_map_of_mem hrd')), ← htext]
      constructor
      · exact rdataToText_inj hdns hbefore hrds hrd' hrd
      · exact congrArg dns.rdataToText
    · exact oneRemoved hdns (by cases t <;> nofun) hbefore hrds hrd hbump
    · have hread := hdns.rdata_text t hbefore hrds hrd
      rw [htext] at hread
      simp only [bind9RecordDeletePreview, htype, hrows, hzone, hcat, previewOfText, hfound,
        hunique.pinned hdns hread, hunique.count]

end Delete

/-! ## A sample -/

inductive SampleRdata where
  | address (text : String)
  | soa (fields : Soa)
  deriving DecidableEq

structure SampleZone where
  origin : String
  rdatasets : String → RdType → Option (Rdataset SampleRdata)

def SampleZone.put (z : SampleZone) (n : String) (t : RdType)
    (new : Option (Rdataset SampleRdata)) : SampleZone :=
  { z with rdatasets := fun n' t' => if n' = n ∧ t' = t then new else z.rdatasets n' t' }

def sampleSoa : Soa := ⟨"ns.evba.lab.", "admin.evba.lab.", 7, 3600, 600, 86400, 300⟩

def sampleText : String :=
  "$ORIGIN evba.lab.\n@ 3600 IN SOA ns.evba.lab. admin.evba.lab. 7 3600 600 86400 300\n" ++
    "api 300 IN A 10.0.0.1\napi 300 IN A 10.0.0.2\n"

def sampleSoaSet : Rdataset SampleRdata := ⟨3600, [.soa sampleSoa], by simp⟩

def sampleAddresses : Rdataset SampleRdata :=
  ⟨300, [.address "10.0.0.1", .address "10.0.0.2"], by simp⟩

def sampleZone : SampleZone :=
  (SampleZone.mk "evba.lab." fun _ _ => none).put "evba.lab." .soa (some sampleSoaSet)
    |>.put "api.evba.lab." .a (some sampleAddresses)

def sampleRdataText : SampleRdata → String
  | .address text => text
  | .soa fields => fields.text

/-- The lines of one set. -/
def sampleLines (z : SampleZone) (n : String) (t : RdType) (mnemonic : String) : String :=
  match z.rdatasets n t with
  | none => ""
  | some rds => String.join (rds.items.map fun rd =>
      n ++ " " ++ toString rds.ttl ++ " IN " ++ mnemonic ++ " " ++ sampleRdataText rd ++ "\n")

/-- dnspython over the sample's file, with the names in it. -/
def sampleDns : Dns String SampleRdata SampleZone where
  zoneFromText text origin :=
    if text = sampleText ∧ origin = "evba.lab." then .ok sampleZone else .error "Unexpected text"
  zoneToText z := "$ORIGIN evba.lab.\n" ++ sampleLines z "evba.lab." .soa "SOA" ++
    sampleLines z "api.evba.lab." .a "A"
  nameFromText name := .ok (asciiLower name)
  rdataFromText t text :=
    if t = .soa then
      if text = sampleSoa.bumped.text then .ok (.soa sampleSoa.bumped) else .error "Invalid SOA"
    else if text = "" then .error "Unexpected end of input"
    else .ok (.address text)
  rdataToText := sampleRdataText
  soaOf
    | .soa fields => fields
    | .address _ => sampleSoa
  origin := SampleZone.origin
  getRdataset := SampleZone.rdatasets
  setRdataset z n t new := z.put n t (some new)
  deleteRdataset z n t := z.put n t none

theorem sampleDns_parsed {text origin : String} {z : SampleZone}
    (h : sampleDns.zoneFromText text origin = .ok z) : z = sampleZone := by
  simp only [sampleDns] at h
  split at h
  · exact (Except.ok.inj h).symm
  · cases h

theorem sampleSoa_text_inj {serial : Nat}
    (h : { sampleSoa with serial := serial }.text = sampleSoa.bumped.text) : serial = 8 := by
  have hchars := congrArg String.toList h
  simp only [Soa.text, Soa.bumped, sampleSoa, String.toList_append, List.append_cancel_right_eq,
    List.append_cancel_left_eq] at hchars
  have hdigits : Nat.toDigits 10 serial = Nat.toDigits 10 8 := by simpa using hchars
  have hread := congrArg (fun l => Nat.ofDigitChars 10 l 0) hdigits
  simpa only [Nat.ofDigitChars_ten_toDigits] using hread

theorem sampleDns_documented : sampleDns.Documented where
  get_set := fun new _ _ _ => rfl
  get_delete := fun _ _ _ _ _ => rfl
  origin_set := fun _ _ _ _ => rfl
  origin_delete := fun _ _ _ => rfl
  rdata_text := by
    intro text o z n rds rd t hz hrds hrd
    rw [sampleDns_parsed hz] at hrds
    -- the only set of the zone beside its SOA
    have hset : rds = sampleAddresses := by
      simp only [sampleDns, sampleZone, SampleZone.put] at hrds
      split at hrds
      · exact (Option.some.inj hrds).symm
      · split at hrds
        · rename_i hsoa
          cases t <;> cases hsoa.2
        · cases hrds
    rw [hset, sampleAddresses, List.mem_cons, List.mem_singleton] at hrd
    have hsoa : t.rdtype ≠ .soa := by cases t <;> nofun
    obtain rfl | rfl := hrd
    · simp [sampleDns, sampleRdataText, hsoa]
    · simp [sampleDns, sampleRdataText, hsoa]
  empty_rdata := by
    intro t rd h
    have hsoa : t.rdtype ≠ .soa := by cases t <;> nofun
    simp [sampleDns, hsoa] at h
  soa_single := by
    intro text o z rds hz hrds
    rw [sampleDns_parsed hz] at hrds
    cases hrds
    rfl
  soa_text := by
    intro text o z rds old serial new hz hrds hold hread
    rw [sampleDns_parsed hz] at hrds
    cases hrds
    rw [sampleSoaSet, List.mem_singleton] at hold
    subst hold
    simp only [sampleDns, if_true] at hread ⊢
    split at hread
    · rename_i htext
      cases hread
      rw [sampleSoa_text_inj htext]
      exact ⟨rfl, by decide⟩
    · cases hread

def asciiUpper (text : String) : String := String.ofList (text.toList.map Char.toUpper)

def quoted (text : String) : String := "'" ++ text ++ "'"

def sampleServer : Server where
  sudoPassword := .ok "secret"
  namedCheckconf := .ok twoZones
  cat path := if path = "db.evba" then .ok sampleText else .error "No such file or directory"

/-- One of two addresses is asked for. -/
def sampleParams : DeleteParams := ⟨"api.evba.lab", "a", some "10.0.0.1", some "evba.lab", none⟩

theorem staged_sample :
    stages (bind9RecordDelete sampleDns asciiLower asciiUpper quoted sampleServer sampleParams) =
      [⟨"evba.lab", "db.evba", none, "secret", "10.0.0.1",
        "$ORIGIN evba.lab.\n" ++
          "evba.lab. 3600 IN SOA ns.evba.lab. admin.evba.lab. 8 3600 600 86400 300\n" ++
          "api.evba.lab. 300 IN A 10.0.0.2\n", none⟩] := by
  have hfound : findRecordMatches sampleDns sampleText "evba.lab" "api.evba.lab" .a =
      .ok ["10.0.0.1", "10.0.0.2"] :=
    congrArg Except.ok (List.mergeSort_of_pairwise (by decide +kernel))
  have hread : bind9RecordDelete sampleDns asciiLower asciiUpper quoted sampleServer sampleParams =
      deleteFromText sampleDns quoted sampleParams .a "secret" "evba.lab" "db.evba" none
        sampleText := by rfl
  rw [hread, deleteFromText, sampleParams, hfound]
  decide +kernel

theorem record_delete_sample :
    ∃ s t text before after name rds victim found,
      stages (bind9RecordDelete sampleDns asciiLower asciiUpper quoted sampleServer sampleParams) =
        [s] ∧
      supported (asciiUpper "a") = some t ∧
      sampleServer.cat s.zonefilePath = .ok text ∧
      sampleDns.zoneFromText text (absoluteName s.zoneName) = .ok before ∧
      sampleDns.nameFromText (absoluteName "api.evba.lab") = .ok name ∧
      sampleDns.getRdataset before name (RecordType.rdtype t) = some rds ∧ victim ∈ rds.items ∧
      (∀ rd ∈ rds.items, Asked sampleDns t (some "10.0.0.1") (sampleDns.rdataToText rd) ↔
        rd = victim) ∧
      s.newText = sampleDns.zoneToText after ∧
      OneRemoved sampleDns before after name t.rdtype rds victim ∧
      s.targetRdata = sampleDns.rdataToText victim ∧
      bind9RecordDeletePreview sampleDns asciiLower asciiUpper sampleServer sampleParams =
        some ⟨⟨s.zoneName, absoluteName "api.evba.lab", t.text, s.view, some "10.0.0.1"⟩, found,
          "recreatable", 1⟩ ∧
      found.Perm (rds.items.map sampleDns.rdataToText) ∧
      ∀ value ∈ found, Asked sampleDns t (some "10.0.0.1") value ↔ value = s.targetRdata := by
  refine (record_delete sampleDns_documented).resolve_left fun h => ?_
  rw [staged_sample] at h
  cases h.1

/-- A record that is not there is refused, which is no error, and nothing is staged. -/
theorem absent_record_refused :
    (∃ r, bind9RecordDelete sampleDns asciiLower asciiUpper quoted sampleServer
      ⟨"www.evba.lab", "a", none, some "evba.lab", none⟩ = .ok (.refused r) ∧
        r.status = .notFound ∧
        r.guidance = "no A record at 'www.evba.lab' in zone 'evba.lab'; nothing deleted") ∧
    stages (bind9RecordDelete sampleDns asciiLower asciiUpper quoted sampleServer
      ⟨"www.evba.lab", "a", none, some "evba.lab", none⟩) = [] := by
  refine ⟨⟨_, by rfl, by rfl, by rfl⟩, by rfl⟩

end Meho.Bind9
