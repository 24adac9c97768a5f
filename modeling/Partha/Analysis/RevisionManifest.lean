import Mathlib.Data.Prod.Lex
import Mathlib.Order.WithBot
import Partha.Canonical.GraphHash
import Partha.Library.Dict
import Partha.Library.SortKeys
import Partha.Snapshot.Immutability

/-!
# Revision Manifests

A manifest copies the identity of a completed snapshot out of its row, and its digest is the hash of
the canonical JSON of the copy. A user keeps both, and has them checked against the stored snapshots
later.

The check is asked about the snapshot that the manifest names, which need not be the current one. So
what was exported stays authentic: as long as the rows of completed snapshots are left as they are,
an exported manifest is never taken for an altered one. And what passes the check is the manifest of
a stored snapshot, field by field.

Times are compared as they are dumped, and how they are dumped is a parameter. Whether the database
sorts missing times first is another. A snapshot is a row of the store of `SnapshotGuard`, whose
runs are those of flushes, registered transitions and purges.

## Main definitions

* `buildManifest`, `manifestDigest`: What is exported.
* `requireSealedSnapshotForCurrentRevision`, `sealedSnapshotForOwner`: The queries for snapshots.
* `read`, `verify`: The service.
* `Stored`: There is a completed snapshot with this manifest.

## Theorems

* `verify_exact`: What passes the check.
* `exported_stays_authentic`: An exported manifest passes it in every later state.
-/

namespace Partha

namespace RevisionManifests

open Canonical Checked SnapshotGuard
open SortKeys (sortBy codePoints)
open List

section Manifests

structure ManifestExtractor where
  name : Str
  version : Str
  deriving DecidableEq, Repr

/-- The manifest body, with the texts of its times. -/
structure RevisionManifest where
  schemaVersion : Str
  repositoryId : Str
  revisionKind : Str
  revisionValue : Str
  revisionRef : Option Str
  snapshotId : Str
  snapshotSchemaVersion : Str
  extractors : List ManifestExtractor
  producerSetHash : Str
  configHash : Str
  canonicalGraphHash : Option Str
  createdAt : Str
  sealedAt : Option Str
  deriving DecidableEq

/-- The value of a field in a dump. -/
inductive Dumped where
  | text (s : Str)
  | textOrNull (s : Option Str)
  | extractors (l : List ManifestExtractor)
  deriving DecidableEq

/-- `model_dump(mode="json", by_alias=True)`, in the order of the names. -/
def RevisionManifest.dump (m : RevisionManifest) : List (Str × Dumped) :=
  [("canonicalGraphHash".toList, .textOrNull m.canonicalGraphHash),
    ("configHash".toList, .text m.configHash),
    ("createdAt".toList, .text m.createdAt),
    ("extractors".toList, .extractors m.extractors),
    ("producerSetHash".toList, .text m.producerSetHash),
    ("repositoryId".toList, .text m.repositoryId),
    ("revisionKind".toList, .text m.revisionKind),
    ("revisionRef".toList, .textOrNull m.revisionRef),
    ("revisionValue".toList, .text m.revisionValue),
    ("schemaVersion".toList, .text m.schemaVersion),
    ("sealedAt".toList, .textOrNull m.sealedAt),
    ("snapshotId".toList, .text m.snapshotId),
    ("snapshotSchemaVersion".toList, .text m.snapshotSchemaVersion)]

instance : Record ManifestExtractor where
  toValue e := .obj [("name".toList, .str e.name), ("version".toList, .str e.version)]
  normalized e := .ok { name := nfc e.name, version := nfc e.version }
  normalize_toValue e w := by
    rw [normalize_keyed (of_decide_eq_true rfl)]
    simp [List.forall₂_cons_left_iff, and_assoc]
  toValue_injective e e' h := by
    cases e
    cases e'
    simpa using h

def Dumped.value : Dumped → Value
  | .text s => .str s
  | .textOrNull s => Canonical.textOrNull s
  | .extractors l => arrayOf l

/-- The strings of a value in normal form. -/
def Dumped.nfc [Unicode] : Dumped → Dumped
  | .text s => .text (Canonical.nfc s)
  | .textOrNull s => .textOrNull (s.map Canonical.nfc)
  | .extractors l => .extractors
      (l.map fun e => { name := Canonical.nfc e.name, version := Canonical.nfc e.version })

/-- The strings of a manifest in normal form. -/
def RevisionManifest.nfc [Unicode] (m : RevisionManifest) : RevisionManifest where
  schemaVersion := Canonical.nfc m.schemaVersion
  repositoryId := Canonical.nfc m.repositoryId
  revisionKind := Canonical.nfc m.revisionKind
  revisionValue := Canonical.nfc m.revisionValue
  revisionRef := m.revisionRef.map Canonical.nfc
  snapshotId := Canonical.nfc m.snapshotId
  snapshotSchemaVersion := Canonical.nfc m.snapshotSchemaVersion
  extractors := m.extractors.map fun e =>
    { name := Canonical.nfc e.name, version := Canonical.nfc e.version }
  producerSetHash := Canonical.nfc m.producerSetHash
  configHash := Canonical.nfc m.configHash
  canonicalGraphHash := m.canonicalGraphHash.map Canonical.nfc
  createdAt := Canonical.nfc m.createdAt
  sealedAt := m.sealedAt.map Canonical.nfc

/-- The payload of the digest. -/
def RevisionManifest.payload (m : RevisionManifest) : Value :=
  .obj (m.dump.map fun f => (f.1, f.2.value))

/-- `manifest_digest`. -/
def manifestDigest [Unicode] [Hashing] (m : RevisionManifest) : Except CanonicalError Str := do
  let bytes ← canonicalJsonBytes m.payload
  .ok (sha256Prefixed bytes)

/-- `_mismatched_fields`. -/
def mismatchedFields (stored submitted : RevisionManifest) : List Str :=
  sortBy codePoints
    ((stored.dump.filter fun f => submitted.dump.lookup f.1 ≠ some f.2).map Prod.fst)

theorem dump_keyed (m : RevisionManifest) :
    Keyed ((m.dump.map fun f => (f.1, f.2.value)).map Prod.fst) := by
  have hnames : (m.dump.map fun f => (f.1, f.2.value)).map Prod.fst =
      (m.dump).map Prod.fst := by
    rw [map_map]
    rfl
  rw [hnames]
  exact of_decide_eq_true rfl

theorem dump_injective : Function.Injective RevisionManifest.dump := by
  intro m m' h
  cases m
  cases m'
  simp only [RevisionManifest.dump, List.cons.injEq, Prod.mk.injEq, Dumped.text.injEq,
    Dumped.textOrNull.injEq, Dumped.extractors.injEq, true_and, and_true] at h
  rcases h with ⟨h₁, h₂, h₃, h₄, h₅, h₆, h₇, h₈, h₉, h₁₀, h₁₁, h₁₂, h₁₃⟩
  rw [h₁, h₂, h₃, h₄, h₅, h₆, h₇, h₈, h₉, h₁₀, h₁₁, h₁₂, h₁₃]

theorem dump_nfc [Unicode] (m : RevisionManifest) :
    m.nfc.dump = m.dump.map fun f => (f.1, f.2.nfc) :=
  rfl

/-- The fields that differ are named, so that none is named if the manifests are the same. -/
theorem mismatchedFields_eq_nil {stored submitted : RevisionManifest} :
    mismatchedFields stored submitted = [] ↔ submitted = stored := by
  have hkeys : ∀ m : RevisionManifest, (m.dump.map Prod.fst).Nodup := fun m =>
    of_decide_eq_true rfl
  rw [mismatchedFields, ← length_eq_zero_iff, SortKeys.length_sortBy, length_map,
    length_eq_zero_iff, filter_eq_nil_iff]
  constructor
  · intro h
    -- Both dumps have the same names in the same order.
    have hdump : stored.dump = submitted.dump :=
      Dict.eq_of_lookup (hkeys stored) rfl (fun f hf => by simpa using h f hf)
    exact dump_injective hdump.symm
  · rintro rfl f hf
    have hlookup := (Dict.mem_iff_lookup (hkeys submitted)).mp hf
    simpa using hlookup

/-- The fields are normalized one by one. -/
theorem normalize_dumped [Unicode] (v : Dumped) : normalize v.value = .ok v.nfc.value := by
  cases v with
  | text s => rfl
  | textOrNull s => exact normalize_textOrNull.mpr rfl
  | extractors l =>
    refine normalize_arrayOf.mpr ⟨_, collect_eq_ok.mpr ?_, rfl⟩
    rw [List.forall₂_map_right_iff]
    exact List.forall₂_same.mpr (fun e _ => rfl)

theorem normalize_payload [Unicode] (m : RevisionManifest) :
    normalize m.payload = .ok m.nfc.payload := by
  refine (normalize_keyed (dump_keyed m)).mpr ⟨_, ?_, rfl⟩
  rw [dump_nfc, map_map, List.forall₂_map_left_iff, List.forall₂_map_right_iff]
  exact List.forall₂_same.mpr (fun f _ => ⟨rfl, normalize_dumped f.2⟩)

theorem manifestDigest_eq [Unicode] [Hashing] (m : RevisionManifest) :
    manifestDigest m = .ok (sha256Prefixed (JsonText.utf8 (text m.nfc.payload))) := by
  rw [manifestDigest, canonicalJsonBytes, normalize_payload]
  rfl

end Manifests

section Service

/-- The columns of `ri_snapshots` that a manifest copies. -/
structure Columns (T : Type) where
  repositoryId : Str
  revisionKind : Str
  revisionValue : Str
  revisionRef : Option Str
  schemaVersion : Str
  producerVersionSet : Option (List Str)
  producerSetHash : Str
  configHash : Str
  canonicalGraphHash : Option Str
  createdAt : T
  sealedAt : Option T

/-- A row of `repositories`. -/
structure RepositoryRecord where
  id : Str
  ownerId : Str
  revisionKind : Option Str
  revisionValue : Option Str

inductive ServiceError where
  | notFound (message : String)
  | unsupportedSchemaVersion (received : Str)
  | canonicalization (e : CanonicalError)
  deriving DecidableEq

inductive VerificationState where
  | verified
  | superseded
  | mismatch
  | unverifiable
  deriving DecidableEq, Repr

structure ManifestResponse where
  manifest : RevisionManifest
  manifestDigest : Str
  verificationState : VerificationState

structure VerificationResponse where
  verificationState : VerificationState
  matchesStoredSnapshot : Bool
  mismatchedFields : List Str
  detail : String

variable {T F : Type}

/-- One entry of `_extractors`. Without an `@` all of it is the name. -/
def extractorOf (entry : Str) : ManifestExtractor :=
  let version := (entry.reverse.takeWhile (fun c => c != '@')).reverse
  if version.length = entry.length then { name := entry, version := [] }
  else { name := entry.take (entry.length - version.length - 1), version := version }

/-- `_extractors`. -/
def extractors (row : SnapshotRow (Columns T)) : List ManifestExtractor :=
  sortBy (fun e => toLex (codePoints e.name, codePoints e.version))
    ((row.rest.producerVersionSet.getD []).map extractorOf)

variable (isoformat : T → Str)

/-- `build_manifest`. -/
def buildManifest (row : SnapshotRow (Columns T)) : RevisionManifest where
  schemaVersion := "revision-manifest.v1".toList
  repositoryId := row.rest.repositoryId
  revisionKind := row.rest.revisionKind
  revisionValue := row.rest.revisionValue
  revisionRef := row.rest.revisionRef
  snapshotId := row.snapshotId
  snapshotSchemaVersion := row.rest.schemaVersion
  extractors := extractors row
  producerSetHash := row.rest.producerSetHash
  configHash := row.rest.configHash
  canonicalGraphHash := row.rest.canonicalGraphHash
  createdAt := isoformat row.rest.createdAt
  sealedAt := row.rest.sealedAt.map isoformat

/-- `supported_schema_versions`. -/
def supportedSchemaVersions : List Str :=
  ["ri.v1".toList]

/-- The database with its repositories, and who asks about which of them. -/
structure Query (T F : Type) where
  db : Database (Columns T) F
  repositories : List RepositoryRecord
  ownerId : Str
  repositoryId : Str

/-- The row is completed, and of this repository, which the owner has. -/
def Query.visible (q : Query T F) (row : SnapshotRow (Columns T)) : Bool :=
  decide (row.rest.repositoryId = q.repositoryId) && decide (row.state = completed) &&
    q.repositories.any fun r =>
      decide (r.id = row.rest.repositoryId) && decide (r.ownerId = q.ownerId)

/-- The schema version of what a query found is checked. -/
def supported : Option (SnapshotRow (Columns T)) →
    Except ServiceError (Option (SnapshotRow (Columns T)))
  | none => .ok none
  | some row =>
    if supportedSchemaVersions.elem row.rest.schemaVersion then .ok (some row)
    else .error (.unsupportedSchemaVersion row.rest.schemaVersion)

variable [LinearOrder T] (nullsFirst : Bool)

/-- `sealed_at.desc(), snapshot_id`. -/
def sealedOrder (row : SnapshotRow (Columns T)) : Nat ×ₗ WithTop Tᵒᵈ ×ₗ List Nat :=
  toLex (if row.rest.sealedAt = none then (if nullsFirst then 0 else 2) else 1,
    toLex ((row.rest.sealedAt.map OrderDual.toDual : WithTop Tᵒᵈ), codePoints row.snapshotId))

variable (q : Query T F)

/-- `_latest_snapshot`. -/
def latestSnapshot : Except ServiceError (Option (SnapshotRow (Columns T))) :=
  supported (sortBy (sealedOrder nullsFirst)
    (q.db.snapshots.filter q.visible)).head?

/-- `require_sealed_snapshot_for_current_revision`. -/
def requireSealedSnapshotForCurrentRevision :
    Except ServiceError (SnapshotRow (Columns T)) := do
  match ← latestSnapshot nullsFirst q with
  | none => .error (.notFound
      "No sealed Repository Intelligence snapshot is available for this repository.")
  | some row =>
    match q.repositories.find? fun r => r.id = q.repositoryId with
    | none => .error (.notFound
        "The sealed snapshot does not match the selected repository revision.")
    | some record =>
      if row.rest.repositoryId ≠ record.id ∨ some row.rest.revisionKind ≠ record.revisionKind ∨
          some row.rest.revisionValue ≠ record.revisionValue then
        .error (.notFound "The sealed snapshot does not match the selected repository revision.")
      else if row.rest.canonicalGraphHash = none ∨ row.rest.sealedAt = none then
        .error (.notFound "The selected repository revision has no sealed snapshot.")
      else .ok row

omit [LinearOrder T] in
/-- `sealed_snapshot_for_owner`. -/
def sealedSnapshotForOwner (snapshotId : Str) :
    Except ServiceError (Option (SnapshotRow (Columns T))) :=
  supported (q.db.snapshots.find? fun row => q.visible row && decide (row.snapshotId = snapshotId))

variable [Unicode] [Hashing]

omit [LinearOrder T] in
/-- `manifest_digest`, in the service. -/
def digestOf (m : RevisionManifest) : Except ServiceError Str :=
  (manifestDigest m).mapError .canonicalization

/-- `RevisionManifestService.read`. -/
def read : Except ServiceError ManifestResponse := do
  let row ← requireSealedSnapshotForCurrentRevision nullsFirst q
  let digest ← digestOf (buildManifest isoformat row)
  .ok {
    manifest := buildManifest isoformat row
    manifestDigest := digest
    verificationState :=
      if row.rest.canonicalGraphHash = none then .unverifiable else .verified }

/-- `RevisionManifestService.verify`. -/
def verify (submitted : RevisionManifest) (submittedDigest : Str) :
    Except ServiceError VerificationResponse := do
  let current ← requireSealedSnapshotForCurrentRevision nullsFirst q
  let recomputed ← digestOf submitted
  if recomputed ≠ submittedDigest then
    .ok {
      verificationState := .mismatch
      matchesStoredSnapshot := false
      mismatchedFields := mismatchedFields (buildManifest isoformat current) submitted
      detail := "The supplied digest is not the digest of the supplied manifest. " ++
        "The manifest content has been altered." }
  else
    match ← sealedSnapshotForOwner q submitted.snapshotId with
    | none => .ok {
        verificationState := .mismatch
        matchesStoredSnapshot := false
        mismatchedFields := mismatchedFields (buildManifest isoformat current) submitted
        detail := "This repository has no sealed snapshot with the identity this manifest " ++
          "names, so the manifest cannot be confirmed against stored facts." }
    | some named =>
      let mismatched := mismatchedFields (buildManifest isoformat named) submitted
      if mismatched ≠ [] then
        .ok {
          verificationState := .mismatch
          matchesStoredSnapshot := false
          mismatchedFields := mismatched
          detail := "The manifest is internally consistent but does not match the snapshot " ++
            "stored for this repository." }
      else if named.snapshotId ≠ current.snapshotId then
        .ok {
          verificationState := .superseded
          matchesStoredSnapshot := true
          mismatchedFields := []
          detail := "The manifest matches a sealed snapshot stored for this repository, but " ++
            "that snapshot is no longer the current revision. It remains a valid " ++
            "record of the revision it names." }
      else
        .ok {
          verificationState := .verified
          matchesStoredSnapshot := true
          mismatchedFields := []
          detail := "The manifest matches the sealed snapshot stored for this repository." }

end Service

section Authenticity

variable {T F : Type} [LinearOrder T] [Unicode] [Hashing] {isoformat : T → Str} {nullsFirst : Bool}
  {q : Query T F}

omit [LinearOrder T] [Unicode] [Hashing] in
theorem supported_eq_ok {found found' : Option (SnapshotRow (Columns T))} :
    supported found = .ok found' ↔ found' = found ∧
      ∀ row, found = some row → supportedSchemaVersions.elem row.rest.schemaVersion = true := by
  cases found with
  | none =>
    refine ⟨fun h => ⟨(Except.ok.inj h).symm, fun row hrow => by cases hrow⟩, fun h => ?_⟩
    rw [h.1]
    rfl
  | some row =>
    rw [supported]
    split
    · rename_i hsupported
      refine ⟨fun h => ⟨(Except.ok.inj h).symm, fun row' hrow => ?_⟩, fun h => by rw [h.1]⟩
      cases hrow
      exact hsupported
    · rename_i hsupported
      refine ⟨fun h => ?_, fun h => absurd (h.2 row rfl) hsupported⟩
      cases h

variable {row : SnapshotRow (Columns T)}

omit [Unicode] [Hashing] in
/-- The current snapshot is one that the owner sees, and it is sealed. -/
theorem current_visible (h : requireSealedSnapshotForCurrentRevision nullsFirst q = .ok row) :
    row ∈ q.db.snapshots ∧ q.visible row = true ∧
      supportedSchemaVersions.elem row.rest.schemaVersion = true ∧
      row.rest.canonicalGraphHash ≠ none := by
  rcases bind_eq_ok.mp h with ⟨found, hfound, h⟩
  cases found with
  | none => cases h
  | some latest =>
    dsimp only at h
    split at h
    · cases h
    · split at h
      · cases h
      · split at h
        · cases h
        · rename_i hsealed
          rw [← Except.ok.inj h]
          rcases supported_eq_ok.mp hfound with ⟨hhead, hsupported⟩
          -- The latest snapshot is one of the visible ones.
          have hmem := mem_filter.mp
            (SortKeys.mem_sortBy.mp (mem_of_mem_head? hhead.symm))
          exact ⟨hmem.1, hmem.2, hsupported latest hhead.symm, (not_or.mp hsealed).1⟩

omit [LinearOrder T] [Unicode] [Hashing] in
/-- A visible snapshot is the one with its key. -/
theorem find_row (hdistinct : (q.db.snapshots.map SnapshotRow.snapshotId).Nodup)
    (hrow : row ∈ q.db.snapshots) (hvisible : q.visible row = true) :
    (q.db.snapshots.find? fun r => q.visible r && decide (r.snapshotId = row.snapshotId)) =
      some row := by
  cases hfind : q.db.snapshots.find? fun r =>
      q.visible r && decide (r.snapshotId = row.snapshotId) with
  | none =>
    have hnot := List.find?_eq_none.mp hfind row hrow
    rw [hvisible] at hnot
    simp at hnot
  | some other =>
    have hother := List.find?_some hfind
    have hid : other.snapshotId = row.snapshotId := by
      simpa using (Bool.and_eq_true_iff.mp hother).2
    rw [inj_on_of_nodup_map hdistinct (mem_of_find?_eq_some hfind) hrow hid]

/-- There is a completed snapshot of the repository, which the owner has, with this manifest. -/
def Stored (isoformat : T → Str) (q : Query T F) (m : RevisionManifest) : Prop :=
  ∃ row ∈ q.db.snapshots, q.visible row = true ∧ buildManifest isoformat row = m

/-- The ways in which a check ends. -/
inductive Checked (isoformat : T → Str) (q : Query T F) (submitted : RevisionManifest)
    (submittedDigest : Str) (current : SnapshotRow (Columns T)) (answer : VerificationResponse) :
    Prop where
  | refused (hstate : answer.verificationState = .mismatch)
      (hmatches : answer.matchesStoredSnapshot = false)
      (h : digestOf submitted ≠ .ok submittedDigest ∨ ∃ found,
        sealedSnapshotForOwner q submitted.snapshotId = .ok found ∧
          ∀ row, found = some row → buildManifest isoformat row ≠ submitted)
  | confirmed (row : SnapshotRow (Columns T)) (hrow : row ∈ q.db.snapshots)
      (hvisible : q.visible row = true) (hbuild : buildManifest isoformat row = submitted)
      (hdigest : digestOf submitted = .ok submittedDigest)
      (hstate : answer.verificationState =
        if row.snapshotId = current.snapshotId then .verified else .superseded)
      (hmatches : answer.matchesStoredSnapshot = true) (hfields : answer.mismatchedFields = [])

theorem verify_cases {submitted : RevisionManifest} {submittedDigest : Str}
    {answer : VerificationResponse}
    (h : verify isoformat nullsFirst q submitted submittedDigest = .ok answer) :
    ∃ current, requireSealedSnapshotForCurrentRevision nullsFirst q = .ok current ∧
      Checked isoformat q submitted submittedDigest current answer := by
  rcases bind_eq_ok.mp h with ⟨current, hcurrent, h⟩
  rcases bind_eq_ok.mp h with ⟨recomputed, hrecomputed, h⟩
  refine ⟨current, hcurrent, ?_⟩
  by_cases hdigest : recomputed = submittedDigest
  · rw [if_neg (not_not.mpr hdigest)] at h
    rcases bind_eq_ok.mp h with ⟨found, hfound, h⟩
    cases found with
    | none =>
      cases h
      exact .refused rfl rfl (.inr ⟨none, hfound, fun row hrow => by cases hrow⟩)
    | some named =>
      dsimp only at h
      by_cases hfields : mismatchedFields (buildManifest isoformat named) submitted = []
      · have hbuild := (mismatchedFields_eq_nil.mp hfields).symm
        have hfind := mem_of_find?_eq_some (supported_eq_ok.mp hfound).1.symm
        have hvisible := List.find?_some (supported_eq_ok.mp hfound).1.symm
        rw [hdigest] at hrecomputed
        rw [if_neg (not_not.mpr hfields)] at h
        by_cases hsame : named.snapshotId = current.snapshotId
        · rw [if_neg (not_not.mpr hsame)] at h
          cases h
          exact .confirmed named hfind (Bool.and_eq_true_iff.mp hvisible).1 hbuild hrecomputed
            (if_pos hsame).symm rfl rfl
        · rw [if_pos hsame] at h
          cases h
          exact .confirmed named hfind (Bool.and_eq_true_iff.mp hvisible).1 hbuild hrecomputed
            (if_neg hsame).symm rfl rfl
      · rw [if_pos hfields] at h
        cases h
        refine .refused rfl rfl (.inr ⟨some named, hfound, fun row hrow hbuild => hfields ?_⟩)
        rw [Option.some.inj hrow, hbuild]
        exact mismatchedFields_eq_nil.mpr rfl
  · rw [if_pos hdigest] at h
    cases h
    refine .refused rfl rfl (.inl fun hok => hdigest ?_)
    exact Except.ok.inj (hrecomputed.symm.trans hok)

/-- A manifest passes the check iff it has its own digest and is, field by field, that of a
    completed snapshot of the repository. It is verified if that is the current snapshot, and
    superseded otherwise. -/
theorem verify_exact (hdistinct : (q.db.snapshots.map SnapshotRow.snapshotId).Nodup)
    {submitted : RevisionManifest} {submittedDigest : Str} {answer : VerificationResponse}
    (h : verify isoformat nullsFirst q submitted submittedDigest = .ok answer) :
    (answer.matchesStoredSnapshot = true ↔ manifestDigest submitted = .ok submittedDigest ∧
      Stored isoformat q submitted) ∧
    (answer.matchesStoredSnapshot = false ↔ answer.verificationState = .mismatch) ∧
    (answer.matchesStoredSnapshot = true → answer.mismatchedFields = [] ∧
      ∃ current, requireSealedSnapshotForCurrentRevision nullsFirst q = .ok current ∧
        answer.verificationState =
          if submitted.snapshotId = current.snapshotId then .verified else .superseded) := by
  have hdigestOf : digestOf submitted = .ok submittedDigest ↔
      manifestDigest submitted = .ok submittedDigest := by
    rw [digestOf, manifestDigest_eq]
    exact ⟨fun h => congrArg _ (Except.ok.inj h), fun h => congrArg _ (Except.ok.inj h)⟩
  rcases verify_cases h with ⟨current, hcurrent, hchecked⟩
  cases hchecked with
  | refused hstate hmatches hrefused =>
    refine ⟨⟨fun hm => absurd (hmatches.symm.trans hm) Bool.false_ne_true, ?_⟩,
      ⟨fun _ => hstate, fun _ => hmatches⟩,
      fun hm => absurd (hmatches.symm.trans hm) Bool.false_ne_true⟩
    rintro ⟨hdigest, row, hrow, hvisible, hbuild⟩
    rcases hrefused with hnot | ⟨found, hfound, hother⟩
    · exact absurd (hdigestOf.mpr hdigest) hnot
    · -- The manifest names the snapshot it was built from, which is then found.
      have hnamed : submitted.snapshotId = row.snapshotId := by
        rw [← hbuild]
        rfl
      rw [hnamed] at hfound
      refine absurd hbuild (hother row ?_)
      rw [(supported_eq_ok.mp hfound).1]
      exact find_row hdistinct hrow hvisible
  | confirmed row hrow hvisible hbuild hdigest hstate hmatches hfields =>
    refine ⟨⟨fun _ => ⟨hdigestOf.mp hdigest, row, hrow, hvisible, hbuild⟩, fun _ => hmatches⟩,
      ⟨fun hm => absurd (hmatches.symm.trans hm).symm Bool.false_ne_true, fun hm => ?_⟩,
      fun _ => ⟨hfields, current, hcurrent, ?_⟩⟩
    · rw [hstate] at hm
      split at hm
      · cases hm
      · cases hm
    · rw [hstate, ← hbuild]
      rfl

/-- What was exported is the manifest of a snapshot, with its digest. -/
theorem read_eq_ok {response : ManifestResponse}
    (h : read isoformat nullsFirst q = .ok response) :
    ∃ row, requireSealedSnapshotForCurrentRevision nullsFirst q = .ok row ∧
      response.manifest = buildManifest isoformat row ∧
      digestOf response.manifest = .ok response.manifestDigest := by
  rcases bind_eq_ok.mp h with ⟨row, hrow, h⟩
  rcases bind_eq_ok.mp h with ⟨digest, hdigest, h⟩
  cases h
  exact ⟨row, hrow, rfl, hdigest⟩

omit [Unicode] [Hashing] [LinearOrder T] in
/-- The rows of completed snapshots stay in a run whose flushes the guard is right about. -/
theorem untouched_path {schema : Schema (Columns T) F} {db after : Database (Columns T) F}
    (hdistinct : (db.snapshots.map SnapshotRow.snapshotId).Nodup)
    (hpath : (store schema).Path Plainly db after) :
    (after.snapshots.map SnapshotRow.snapshotId).Nodup ∧ Untouched db after := by
  have hkeep : ∀ (db : Database (Columns T) F) a db',
      (db.snapshots.map SnapshotRow.snapshotId).Nodup → Plainly db a →
        (store schema).step db a = some db' →
          (db'.snapshots.map SnapshotRow.snapshotId).Nodup ∧ Untouched db db' := by
    intro db a db' hdistinct hplain hstep
    cases hstep
    exact step_plain hdistinct hplain
  have hnodup : ∀ (db : Database (Columns T) F) a db',
      (db.snapshots.map SnapshotRow.snapshotId).Nodup → Plainly db a →
        (store schema).step db a = some db' →
          (db'.snapshots.map SnapshotRow.snapshotId).Nodup :=
    fun db a db' hd hp hs => (hkeep db a db' hd hp hs).1
  exact ⟨StepSystem.path_invariant
      (I := fun db => (db.snapshots.map SnapshotRow.snapshotId).Nodup) hnodup hdistinct hpath,
    StepSystem.path_rel untouched_refl (fun _ _ _ => Untouched.trans) hnodup
      (fun db a db' hd hp hs => (hkeep db a db' hd hp hs).2) hdistinct hpath⟩

/-- The manifest of a snapshot that can be seen passes the check. -/
theorem verify_stored (hdistinct : (q.db.snapshots.map SnapshotRow.snapshotId).Nodup)
    {current : SnapshotRow (Columns T)} {digest : Str}
    (hcurrent : requireSealedSnapshotForCurrentRevision nullsFirst q = .ok current)
    (hrow : row ∈ q.db.snapshots) (hvisible : q.visible row = true)
    (hsupported : supportedSchemaVersions.elem row.rest.schemaVersion = true)
    (hdigest : digestOf (buildManifest isoformat row) = .ok digest) :
    ∃ answer, verify isoformat nullsFirst q (buildManifest isoformat row) digest = .ok answer ∧
      answer.matchesStoredSnapshot = true ∧ answer.mismatchedFields = [] ∧
      answer.verificationState =
        if row.snapshotId = current.snapshotId then .verified else .superseded := by
  have hfind := find_row hdistinct hrow hvisible
  have hfound : sealedSnapshotForOwner q (buildManifest isoformat row).snapshotId =
      .ok (some row) := by
    refine supported_eq_ok.mpr ⟨hfind.symm, fun r hr => ?_⟩
    rw [← Option.some.inj (hfind.symm.trans hr)]
    exact hsupported
  have hsame : mismatchedFields (buildManifest isoformat row) (buildManifest isoformat row) = [] :=
    mismatchedFields_eq_nil.mpr rfl
  rw [verify, hcurrent, ok_bind, hdigest, ok_bind, if_neg (not_not.mpr rfl), hfound, ok_bind]
  dsimp only
  rw [if_neg (not_not.mpr hsame)]
  by_cases hcase : row.snapshotId = current.snapshotId
  · rw [if_neg (not_not.mpr hcase), if_pos hcase]
    exact ⟨_, rfl, rfl, rfl, rfl⟩
  · rw [if_pos hcase, if_neg hcase]
    exact ⟨_, rfl, rfl, rfl, rfl⟩

/-- Once exported, a manifest passes the check in every later state in which the repository has a
    current snapshot, whoever has the repository then. -/
theorem exported_stays_authentic (schema : Schema (Columns T) F) {later : Query T F}
    {response : ManifestResponse} {current : SnapshotRow (Columns T)}
    (hreach : (store schema).ReachableBy Plainly q.db)
    (hpath : (store schema).Path Plainly q.db later.db)
    (hrepository : later.repositoryId = q.repositoryId)
    (hread : read isoformat nullsFirst q = .ok response)
    (hcurrent : requireSealedSnapshotForCurrentRevision nullsFirst later = .ok current) :
    ∃ answer, verify isoformat nullsFirst later response.manifest response.manifestDigest =
        .ok answer ∧
      answer.matchesStoredSnapshot = true ∧ answer.mismatchedFields = [] ∧
      answer.verificationState =
        if response.manifest.snapshotId = current.snapshotId then .verified else .superseded := by
  rcases read_eq_ok hread with ⟨row, hrow, hmanifest, hdigest⟩
  rcases current_visible hrow with ⟨hmem, hvisible, hsupported, -⟩
  rcases current_visible hcurrent with ⟨-, hsees, -, -⟩
  rcases untouched_path (distinct_reachable hreach) hpath with ⟨hdistinct, huntouched⟩
  simp only [Query.visible, hrepository, Bool.and_eq_true, decide_eq_true_eq] at hvisible hsees
  -- The later owner sees the current snapshot, and so the other ones of the repository.
  have hstill : later.visible row = true := by
    rw [Query.visible, hvisible.1.1, hvisible.1.2, hrepository, ← hsees.1.1]
    simpa using hsees.2
  rw [hmanifest] at hdigest ⊢
  exact verify_stored hdistinct hcurrent (huntouched row hmem hvisible.1.2).1 hstill hsupported
    hdigest

end Authenticity

section Samples

def sampleRow (snapshotId : String) (sealedAt : Nat) : SnapshotRow (Columns Nat) where
  snapshotId := snapshotId.toList
  state := completed
  rest :=
    { repositoryId := "repo".toList
      revisionKind := "git".toList
      revisionValue := "abc".toList
      revisionRef := none
      schemaVersion := "ri.v1".toList
      producerVersionSet := some ["repository-inventory@1".toList]
      producerSetHash := "p".toList
      configHash := "c".toList
      canonicalGraphHash := some "g".toList
      createdAt := 0
      sealedAt := some sealedAt }

/-- Two snapshots of one revision. -/
def sampleRows : Database (Columns Nat) Unit :=
  { snapshots := [sampleRow "snap_1" 1, sampleRow "snap_2" 2]
    facts := [] }

/-- The owner asks about the repository. -/
def sampleQuery (db : Database (Columns Nat) Unit) : Query Nat Unit where
  db := db
  repositories :=
    [{ id := "repo".toList, ownerId := "ada".toList, revisionKind := some "git".toList,
       revisionValue := some "abc".toList }]
  ownerId := "ada".toList
  repositoryId := "repo".toList

def digits (n : Nat) : Str :=
  n.repr.toList

/-- Only the keys of snapshots are constrained, and the facts of a snapshot go together. -/
def plainSchema : Schema (Columns Nat) Unit where
  consistent db := decide ((db.snapshots.map SnapshotRow.snapshotId).Nodup)
  cascades dropped r := dropped.any (fun d => d.snapshotId == r.snapshotId)
  executes _ _ := true
  distinct h := of_decide_eq_true h
  within h := by
    rcases List.any_eq_true.mp h with ⟨d, hd, hsame⟩
    exact ⟨d, hd, eq_of_beq hsame⟩

/-- The newer snapshot is the current one. -/
theorem current_sample :
    requireSealedSnapshotForCurrentRevision false (sampleQuery sampleRows) =
      .ok (sampleRow "snap_2" 2) := by
  rfl

local instance manifestText : Unicode := asciiText

local instance manifestHash : Hashing := sha256

/-- The digest that the service computes. -/
def sampleDigest (row : SnapshotRow (Columns Nat)) : Str :=
  sha256Prefixed (JsonText.utf8 (text (buildManifest digits row).nfc.payload))

theorem digestOf_sample (row : SnapshotRow (Columns Nat)) :
    digestOf (buildManifest digits row) = .ok (sampleDigest row) := by
  rw [digestOf, manifestDigest_eq]
  rfl

/-- The manifest of the older snapshot is stored, and superseded. -/
theorem verify_exact_sample :
    Stored digits (sampleQuery sampleRows) (buildManifest digits (sampleRow "snap_1" 1)) := by
  have hdistinct : ((sampleQuery sampleRows).db.snapshots.map SnapshotRow.snapshotId).Nodup := by
    decide
  rcases verify_stored hdistinct current_sample mem_cons_self rfl rfl
    (digestOf_sample (sampleRow "snap_1" 1)) with ⟨answer, hanswer, hmatches, -⟩
  exact ((verify_exact hdistinct hanswer).1.mp hmatches).2

/-- What is exported of the newer snapshot is verified after the facts of another one are purged. -/
theorem exported_stays_authentic_sample :
    ∃ answer, verify digits false (sampleQuery (purgeSnapshotFacts sampleRows "snap_0".toList))
        (buildManifest digits (sampleRow "snap_2" 2)) (sampleDigest (sampleRow "snap_2" 2)) =
          .ok answer ∧ answer.verificationState = .verified := by
  have hread : read digits false (sampleQuery sampleRows) = .ok
      { manifest := buildManifest digits (sampleRow "snap_2" 2)
        manifestDigest := sampleDigest (sampleRow "snap_2" 2)
        verificationState := .verified } := by
    rw [read, current_sample, ok_bind, digestOf_sample, ok_bind]
    rfl
  have hreach : (store plainSchema).ReachableBy Plainly sampleRows :=
    ⟨sampleRows, rfl, Relation.ReflTransGen.refl⟩
  have hnext : (store plainSchema).Next Plainly sampleRows
      (purgeSnapshotFacts sampleRows "snap_0".toList) := ⟨.purge "snap_0".toList, trivial, rfl⟩
  have hcurrent : requireSealedSnapshotForCurrentRevision false
      (sampleQuery (purgeSnapshotFacts sampleRows "snap_0".toList)) =
        .ok (sampleRow "snap_2" 2) := current_sample
  rcases exported_stays_authentic plainSchema hreach (Relation.ReflTransGen.single hnext) rfl hread
    hcurrent with ⟨answer, hanswer, -, -, hstate⟩
  exact ⟨answer, hanswer, hstate⟩

end Samples

end RevisionManifests

end Partha
