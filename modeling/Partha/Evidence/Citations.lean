import Mathlib.Logic.Function.Basic
import Partha.Evidence.Files
import Partha.Extraction.Evidence
import Partha.Library.Rows

/-!
# Verified Citations

`EvidenceSourceService.read` shows the source text that a citation points at, if
the citation can be proved. A citation names a snapshot, a fact, a path and a span
of lines.

The proof is put together from lookups that know little of each other: the owner
of the repository, the snapshot, its revision, the row of evidence under one of
three kinds of facts, and the hash of the bytes that the file node was sealed with.
The text itself comes from the preview, which may have been cut or decoded with
replacement. What makes it trustworthy is the hash alone: the encoding of the text
that is shown has the hash of the bytes that were sealed.

In the other direction a citation that was stored has to be shown as long as the
file is as it was. There the extractors and the reader have to agree on paths, on
lines and on what is hashed. `Recorded` says what the extractors have stored, and
rests on `Cites`, which has every way they come by evidence.

## Main definitions

* `Database`: The tables, with the constraints that the lookups rest on.
* `hasEvidenceReference`: `has_evidence_reference`.
* `sourceContentHash`: `source_content_hash`.
* `read`: `EvidenceSourceService.read`.
* `SealedFrom`: The bytes that a file node was sealed from.
* `Recorded`: What the extractors have stored for the sources of the snapshots.

## Theorems

* `metadata_eq_ok`: What is known of a snapshot that is returned.
* `sealedFrom_iff`: A file node was sealed from one source only.
* `read_exact`: A verified citation shows the sealed bytes, and every stored one
  is verified while its file is unchanged.
-/

namespace Partha

namespace Evidence

open Canonical Checked Extraction JsonText List

section Tables

/-- `RepositoryRecord`. -/
structure RepositoryRecord where
  id : Str
  ownerId : Str
  localPath : HostPath
  revisionKind : Option Str
  revisionValue : Option Str

inductive SnapshotState where
  | building
  | completed
  | failed
  deriving DecidableEq, Repr

/-- `RiSnapshot`. -/
structure RiSnapshot where
  snapshotId : Str
  repositoryId : Str
  revisionKind : Str
  revisionValue : Str
  schemaVersion : Str
  state : SnapshotState
  deriving DecidableEq

/-- `RiNode`. -/
structure RiNode where
  id : Nat
  snapshotId : Str
  stableKey : Str
  nodeKind : Str
  properties : Option (List (Str × Value))

/-- `RiEdge`. -/
structure RiEdge where
  id : Nat
  snapshotId : Str
  edgeId : Str
  deriving DecidableEq

/-- `RiObservation`. -/
structure RiObservation where
  id : Nat
  snapshotId : Str
  observationId : Str
  deriving DecidableEq

/-- `RiEvidence`. -/
structure RiEvidence where
  snapshotId : Str
  nodeRef : Option Nat
  edgeRef : Option Nat
  observationRef : Option Nat
  path : Str
  startLine : Int
  endLine : Int
  logicalLineCount : Int
  deriving DecidableEq

/-- The tables, with the keys of three of them and the foreign key
    `fk_ri_snapshots_repository_revision`. -/
structure Database where
  repositories : List RepositoryRecord
  snapshots : List RiSnapshot
  nodes : List RiNode
  edges : List RiEdge
  observations : List RiObservation
  evidence : List RiEvidence
  repositories_key : (repositories.map (·.id)).Nodup
  snapshots_key : (snapshots.map (·.snapshotId)).Nodup
  nodes_key : (nodes.map (fun n => (n.snapshotId, n.stableKey))).Nodup
  revision : ∀ s ∈ snapshots, ∃ r ∈ repositories, r.id = s.repositoryId ∧
    r.revisionKind = some s.revisionKind ∧ r.revisionValue = some s.revisionValue

end Tables

section Queries

/-- `get_for_owner`. -/
def getForOwner (db : Database) (repositoryId ownerId : Str) : Option RepositoryRecord :=
  (db.repositories.find? (fun r => r.id = repositoryId)).filter (fun r => r.ownerId = ownerId)

/-- `_get_record`, of either service. -/
def getRecord (db : Database) (repositoryId ownerId : Str) :
    Except ServiceError RepositoryRecord :=
  match getForOwner db repositoryId ownerId with
  | some r => .ok r
  | none => .error
      { kind := .notFound
        message := "Repository not found.".toList
        details := [("repositoryId", .str repositoryId)] }

/-- `supported_schema_versions`. -/
def supportedSchemaVersions : List Str :=
  ["ri.v1".toList]

/-- The snapshot can be seen by the owner of its repository. -/
def visible (db : Database) (ownerId snapshotId : Str) (s : RiSnapshot) : Bool :=
  s.snapshotId = snapshotId ∧ s.state = .completed ∧
    db.repositories.any (fun r => r.id = s.repositoryId ∧ r.ownerId = ownerId)

/-- `SnapshotQueryService.metadata`. -/
def metadata (db : Database) (ownerId snapshotId : Str) : Except ServiceError RiSnapshot :=
  match db.snapshots.find? (visible db ownerId snapshotId) with
  | none => .error
      { kind := .notFound
        message := "Snapshot not found.".toList
        details := [] }
  | some s =>
    if supportedSchemaVersions.contains s.schemaVersion then .ok s
    else .error
      { kind := .unsupportedSchemaVersion
        message := "Unsupported snapshot schema version: ".toList ++ s.schemaVersion ++ ['.']
        details := [("received", .str s.schemaVersion),
          ("supported", .arr (supportedSchemaVersions.map .str))] }

/-- The fact that a row of evidence is attached to has the identity `factId`. -/
def attached (db : Database) (e : RiEvidence) (factId : Str) : Bool :=
  db.nodes.any (fun n =>
      n.snapshotId = e.snapshotId ∧ some n.id = e.nodeRef ∧ n.stableKey = factId) ||
    db.edges.any (fun d =>
      d.snapshotId = e.snapshotId ∧ some d.id = e.edgeRef ∧ d.edgeId = factId) ||
    db.observations.any (fun o =>
      o.snapshotId = e.snapshotId ∧ some o.id = e.observationRef ∧ o.observationId = factId)

/-- `has_evidence_reference`. -/
def hasEvidenceReference (db : Database) (snapshot : RiSnapshot) (factId path : Str)
    (startLine endLine : Int) : Bool :=
  db.evidence.any (fun e => e.snapshotId = snapshot.snapshotId ∧ e.path = path ∧
    e.startLine = startLine ∧ e.endLine = endLine ∧ attached db e factId)

/-- The stable key of the file node for a path. -/
def fileKey (path : Str) : Str :=
  "file:".toList ++ path

/-- The value of `content_sha256`, if it is a string. -/
def contentSha256 (n : RiNode) : Option Str :=
  match (n.properties.getD []).find? (fun p => p.1 = "content_sha256".toList) with
  | some (_, .str value) => some value
  | _ => none

/-- `source_content_hash`. -/
def sourceContentHash (db : Database) (snapshot : RiSnapshot) (path : Str) : Option Str :=
  (db.nodes.find? (fun n => n.snapshotId = snapshot.snapshotId ∧ n.nodeKind = "file".toList ∧
    n.stableKey = fileKey path)).bind contentSha256

end Queries

section Service

/-- The parameters of a request. -/
structure CitationRequest where
  repositoryId : Str
  snapshotId : Str
  factId : Str
  path : Str
  startLine : Int
  endLine : Int

inductive CitationStatus where
  | ready
  | unavailable
  deriving DecidableEq, Repr

/-- `EvidenceSourceResponse`. -/
structure EvidenceSourceResponse where
  schemaVersion : Str
  repositoryId : Str
  snapshotId : Str
  factId : Str
  revisionKind : Str
  revisionValue : Str
  path : Str
  startLine : Int
  endLine : Int
  status : CitationStatus
  reason : Option Str
  content : Option Str
  truncated : Bool
  size : Nat

/-- The response for a citation that cannot be proved. -/
def unavailable (request : CitationRequest) (snapshot : RiSnapshot) (reason : String) :
    EvidenceSourceResponse :=
  { schemaVersion := "evidence-source.v1".toList
    repositoryId := request.repositoryId
    snapshotId := request.snapshotId
    factId := request.factId
    revisionKind := snapshot.revisionKind
    revisionValue := snapshot.revisionValue
    path := request.path
    startLine := request.startLine
    endLine := request.endLine
    status := .unavailable
    reason := some reason.toList
    content := none
    truncated := false
    size := 0 }

/-- The response for a citation that is proved. -/
def ready (request : CitationRequest) (snapshot : RiSnapshot) (file : RepositoryFileResponse) :
    EvidenceSourceResponse :=
  { schemaVersion := "evidence-source.v1".toList
    repositoryId := request.repositoryId
    snapshotId := request.snapshotId
    factId := request.factId
    revisionKind := snapshot.revisionKind
    revisionValue := snapshot.revisionValue
    path := request.path
    startLine := request.startLine
    endLine := request.endLine
    status := .ready
    reason := none
    content := some file.content
    truncated := file.truncated
    size := file.size }

variable [Hashing]

/-- What is shown of the file, once the citation is known to be stored. -/
def respond (db : Database) (request : CitationRequest) (snapshot : RiSnapshot)
    (file : RepositoryFileResponse) : EvidenceSourceResponse :=
  if file.isBinary ∨ file.isImage then
    unavailable request snapshot "The cited path is not a text source file."
  else if file.truncated ∨ logicalLineCount file.content < request.endLine then
    unavailable request snapshot
      "The cited line span is outside the available source content."
  else if sourceContentHash db snapshot request.path
      = some (sha256Prefixed (utf8 file.content)) then
    ready request snapshot file
  else
    unavailable request snapshot
      "The available source bytes do not match the content sealed into this snapshot."

variable [Interpreter]

/-- `EvidenceSourceService.read`. The record is looked up once, where the source looks
    it up again to read the file. -/
def read (db : Database) (fs : FileSystem) (ownerId : Str) (request : CitationRequest) :
    Except ServiceError EvidenceSourceResponse :=
  if request.startLine < 1 ∨ request.endLine < request.startLine then
    .error
      { kind := .validation
        message := "Requested line range is invalid.".toList
        details := [("startLine", .num request.startLine), ("endLine", .num request.endLine)] }
  else do
    let record ← getRecord db request.repositoryId ownerId
    let snapshot ← metadata db ownerId request.snapshotId
    if snapshot.repositoryId ≠ request.repositoryId then
      .error
        { kind := .notFound
          message := "Snapshot not found.".toList
          details := [("snapshotId", .str request.snapshotId)] }
    else if record.revisionKind ≠ some snapshot.revisionKind ∨
        record.revisionValue ≠ some snapshot.revisionValue then
      .ok (unavailable request snapshot
        ("The repository's current stored revision no longer matches the exact " ++
          "revision this citation's snapshot was sealed against."))
    else if hasEvidenceReference db snapshot request.factId request.path request.startLine
        request.endLine = false then
      .ok (unavailable request snapshot
        "This exact fact and source span are not part of the cited snapshot's evidence.")
    else
      match readFile fs record.localPath request.path with
      | .error e =>
        if e.kind = .notFound then
          .ok (unavailable request snapshot
            "The exact source for this revision is no longer available.")
        else .error e
      | .ok file => .ok (respond db request snapshot file)

end Service

section Lookups

variable {db : Database}

variable {ownerId snapshotId factId : Str} {s : RiSnapshot}

theorem getRecord_eq_ok {repositoryId : Str} {r : RepositoryRecord} :
    getRecord db repositoryId ownerId = .ok r ↔
      r ∈ db.repositories ∧ r.id = repositoryId ∧ r.ownerId = ownerId := by
  have hget : getForOwner db repositoryId ownerId = some r ↔
      r ∈ db.repositories ∧ r.id = repositoryId ∧ r.ownerId = ownerId := by
    rw [getForOwner, Option.filter_eq_some_iff, Rows.find?_eq_some db.repositories_key,
      decide_eq_true_eq, and_assoc]
  rw [← hget, getRecord]
  cases getForOwner db repositoryId ownerId with
  | none => exact iff_of_false (fun h => by cases h) (fun h => by cases h)
  | some r' => simp only [Except.ok.injEq, Option.some.injEq]

theorem visible_iff :
    visible db ownerId snapshotId s = true ↔
      s.snapshotId = snapshotId ∧ s.state = .completed ∧
        ∃ r ∈ db.repositories, r.id = s.repositoryId ∧ r.ownerId = ownerId := by
  simp only [visible, any_eq_true, decide_eq_true_eq]

/-- A snapshot that is returned is complete, and its repository belongs to the owner. -/
theorem metadata_eq_ok :
    metadata db ownerId snapshotId = .ok s ↔
      s ∈ db.snapshots ∧ visible db ownerId snapshotId s = true ∧
        supportedSchemaVersions.contains s.schemaVersion = true := by
  have hone : ∀ t ∈ db.snapshots, ∀ t' ∈ db.snapshots, visible db ownerId snapshotId t = true →
      visible db ownerId snapshotId t' = true → t = t' := by
    intro t ht t' ht' h h'
    exact Rows.eq_of_key_eq db.snapshots_key ht ht'
      ((visible_iff.mp h).1.trans (visible_iff.mp h').1.symm)
  rw [← and_assoc, ← Rows.find?_unique hone, metadata]
  cases hfind : db.snapshots.find? (visible db ownerId snapshotId) with
  | none =>
    refine iff_of_false (fun h => by cases h) ?_
    rintro ⟨h, _⟩
    cases h
  | some t =>
    by_cases hschema : supportedSchemaVersions.contains t.schemaVersion = true
    · simp only [if_pos hschema, Except.ok.injEq, Option.some.injEq]
      constructor
      · rintro rfl
        exact ⟨rfl, hschema⟩
      · exact fun h => h.1
    · simp only [if_neg hschema, Option.some.injEq]
      refine iff_of_false (fun h => by cases h) ?_
      rintro ⟨rfl, h⟩
      exact hschema h

/-- The fact that a row of evidence is attached to. -/
def Attached (db : Database) (e : RiEvidence) (factId : Str) : Prop :=
  (∃ n ∈ db.nodes, n.snapshotId = e.snapshotId ∧ some n.id = e.nodeRef ∧ n.stableKey = factId) ∨
    (∃ d ∈ db.edges, d.snapshotId = e.snapshotId ∧ some d.id = e.edgeRef ∧ d.edgeId = factId) ∨
    ∃ o ∈ db.observations, o.snapshotId = e.snapshotId ∧ some o.id = e.observationRef ∧
      o.observationId = factId

theorem attached_iff {e : RiEvidence} : attached db e factId = true ↔ Attached db e factId := by
  simp only [attached, Attached, Bool.or_eq_true, any_eq_true, decide_eq_true_eq, or_assoc]

theorem hasEvidenceReference_iff {path : Str} {startLine endLine : Int} :
    hasEvidenceReference db s factId path startLine endLine = true ↔
      ∃ e ∈ db.evidence, e.snapshotId = s.snapshotId ∧ e.path = path ∧ e.startLine = startLine ∧
        e.endLine = endLine ∧ Attached db e factId := by
  simp only [hasEvidenceReference, any_eq_true, decide_eq_true_eq, attached_iff]

end Lookups

section Sealing

variable [Hashing] {db : Database}

/-- The file node for a path carries the hash of these bytes. -/
def SealedFrom (db : Database) (snapshotId path : Str) (source : List UInt8) : Prop :=
  ∃ n ∈ db.nodes, n.snapshotId = snapshotId ∧ n.nodeKind = "file".toList ∧
    n.stableKey = fileKey path ∧ contentSha256 n = some (sha256Prefixed source)

variable {path : Str} {source : List UInt8}

theorem sourceContentHash_eq_some {s : RiSnapshot} :
    sourceContentHash db s path = some (sha256Prefixed source) ↔
      SealedFrom db s.snapshotId path source := by
  have hone : ∀ n ∈ db.nodes, ∀ n' ∈ db.nodes,
      decide (n.snapshotId = s.snapshotId ∧ n.nodeKind = "file".toList ∧
        n.stableKey = fileKey path) = true →
      decide (n'.snapshotId = s.snapshotId ∧ n'.nodeKind = "file".toList ∧
        n'.stableKey = fileKey path) = true → n = n' := by
    intro n hn n' hn' h h'
    have hkey := of_decide_eq_true h
    have hkey' := of_decide_eq_true h'
    exact Rows.eq_of_key_eq db.nodes_key hn hn'
      (Prod.ext (hkey.1.trans hkey'.1.symm) (hkey.2.2.trans hkey'.2.2.symm))
  rw [sourceContentHash, Option.bind_eq_some_iff]
  simp only [Rows.find?_unique hone, decide_eq_true_eq, SealedFrom, and_assoc]

theorem sha256Prefixed_injective (hinj : Function.Injective sha256Hex) :
    Function.Injective sha256Prefixed :=
  fun _ _ h => hinj (append_cancel_left h)

/-- Under a hash without collisions a file node was sealed from one source only. -/
theorem sealedFrom_iff (hinj : Function.Injective sha256Hex) {snapshotId : Str}
    (h : SealedFrom db snapshotId path source) {source' : List UInt8} :
    SealedFrom db snapshotId path source' ↔ source' = source := by
  constructor
  · rintro ⟨n', hn', hsnap', _, hkey', hhash'⟩
    rcases h with ⟨n, hn, hsnap, _, hkey, hhash⟩
    have hsame : n' = n := Rows.eq_of_key_eq db.nodes_key hn' hn
      (Prod.ext (hsnap'.trans hsnap.symm) (hkey'.trans hkey.symm))
    rw [hsame, hhash] at hhash'
    exact sha256Prefixed_injective hinj (Option.some.inj hhash').symm
  · rintro rfl
    exact h

end Sealing

section Reading

variable [Hashing] {db : Database} {request : CitationRequest} {s : RiSnapshot}
  {file : RepositoryFileResponse}

/-- When the text of a file is shown. -/
theorem respond_ready (h : (respond db request s file).status = .ready) :
    respond db request s file = ready request s file ∧ file.truncated = false ∧
      request.endLine ≤ logicalLineCount file.content ∧
      SealedFrom db s.snapshotId request.path (utf8 file.content) := by
  unfold respond at h ⊢
  by_cases hkind : file.isBinary ∨ file.isImage
  · rw [if_pos hkind] at h
    cases h
  rw [if_neg hkind] at h ⊢
  by_cases hspan : file.truncated ∨ logicalLineCount file.content < request.endLine
  · rw [if_pos hspan] at h
    cases h
  rw [if_neg hspan] at h ⊢
  by_cases hhash : sourceContentHash db s request.path
      = some (sha256Prefixed (utf8 file.content))
  · rw [if_pos hhash] at h ⊢
    rw [not_or, Bool.not_eq_true, not_lt] at hspan
    exact ⟨rfl, hspan.1, hspan.2, sourceContentHash_eq_some.mp hhash⟩
  · rw [if_neg hhash] at h
    cases h

theorem respond_of_sealed (hbinary : file.isBinary = false) (himage : file.isImage = false)
    (htruncated : file.truncated = false)
    (hlines : request.endLine ≤ logicalLineCount file.content)
    (hsealed : SealedFrom db s.snapshotId request.path (utf8 file.content)) :
    respond db request s file = ready request s file := by
  have hkind : ¬ (file.isBinary = true ∨ file.isImage = true) := by
    rw [hbinary, himage, or_self]
    exact Bool.false_ne_true
  have hspan : ¬ (file.truncated = true ∨ logicalLineCount file.content < request.endLine) := by
    rw [htruncated, not_or, not_lt]
    exact ⟨Bool.false_ne_true, hlines⟩
  rw [respond, if_neg hkind, if_neg hspan, if_pos (sourceContentHash_eq_some.mpr hsealed)]

variable [Interpreter] {fs : FileSystem} {ownerId : Str}

/-- If every lookup finds what it looks for, then the file is shown. -/
theorem read_eq_respond {record : RepositoryRecord}
    (hrange : 1 ≤ request.startLine ∧ request.startLine ≤ request.endLine)
    (hrecord : getRecord db request.repositoryId ownerId = .ok record)
    (hs : metadata db ownerId request.snapshotId = .ok s)
    (hrepo : s.repositoryId = request.repositoryId)
    (hrevision : record.revisionKind = some s.revisionKind ∧
      record.revisionValue = some s.revisionValue)
    (hcited : hasEvidenceReference db s request.factId request.path request.startLine
      request.endLine = true)
    (hfile : readFile fs record.localPath request.path = .ok file) :
    read db fs ownerId request = .ok (respond db request s file) := by
  have hvalid : ¬ (request.startLine < 1 ∨ request.endLine < request.startLine) := by omega
  have hcurrent : ¬ (record.revisionKind ≠ some s.revisionKind ∨
      record.revisionValue ≠ some s.revisionValue) := by
    rw [not_or, not_not, not_not]
    exact hrevision
  have hstored : ¬ (hasEvidenceReference db s request.factId request.path request.startLine
      request.endLine = false) := by
    rw [hcited]
    exact fun h => by cases h
  unfold read
  rw [if_neg hvalid, hrecord, ok_bind, hs, ok_bind, if_neg (not_not.mpr hrepo), if_neg hcurrent,
    if_neg hstored]
  simp only [hfile]

variable {response : EvidenceSourceResponse}

/-- What has been found when a citation is verified. -/
theorem read_ready (h : read db fs ownerId request = .ok response)
    (hready : response.status = .ready) :
    ∃ record s file, (1 ≤ request.startLine ∧ request.startLine ≤ request.endLine) ∧
      getRecord db request.repositoryId ownerId = .ok record ∧
      metadata db ownerId request.snapshotId = .ok s ∧ s.repositoryId = request.repositoryId ∧
      (record.revisionKind = some s.revisionKind ∧
        record.revisionValue = some s.revisionValue) ∧
      hasEvidenceReference db s request.factId request.path request.startLine request.endLine
        = true ∧
      response = respond db request s file := by
  unfold read at h
  by_cases hrange : request.startLine < 1 ∨ request.endLine < request.startLine
  · rw [if_pos hrange] at h
    cases h
  rw [if_neg hrange] at h
  rcases bind_eq_ok.mp h with ⟨record, hrecord, h⟩
  rcases bind_eq_ok.mp h with ⟨s, hs, h⟩
  by_cases hrepo : s.repositoryId ≠ request.repositoryId
  · rw [if_pos hrepo] at h
    cases h
  rw [if_neg hrepo] at h
  -- a moved revision and an uncited range are answered, though never as ready
  by_cases hrevision : record.revisionKind ≠ some s.revisionKind ∨
      record.revisionValue ≠ some s.revisionValue
  · rw [if_pos hrevision] at h
    rw [← Except.ok.inj h] at hready
    cases hready
  rw [if_neg hrevision] at h
  by_cases hcited : hasEvidenceReference db s request.factId request.path request.startLine
      request.endLine = false
  · rw [if_pos hcited] at h
    rw [← Except.ok.inj h] at hready
    cases hready
  rw [if_neg hcited] at h
  cases hfile : readFile fs record.localPath request.path with
  | error e =>
    simp only [hfile] at h
    split at h
    · rw [← Except.ok.inj h] at hready
      cases hready
    · cases h
  | ok file =>
    simp only [hfile] at h
    rw [not_or, not_lt, not_lt] at hrange
    rw [not_or, not_not, not_not] at hrevision
    exact ⟨record, s, file, hrange, hrecord, hs, not_not.mp hrepo, hrevision,
      Bool.eq_true_of_not_eq_false hcited, (Except.ok.inj h).symm⟩

/-- What a verified citation shows. -/
structure Verified (db : Database) (ownerId : Str) (request : CitationRequest)
    (response : EvidenceSourceResponse) : Prop where
  /-- The snapshot is complete and belongs to the current revision of the repository of
      the owner. -/
  snapshot : ∃ s ∈ db.snapshots, s.snapshotId = request.snapshotId ∧ s.state = .completed ∧
    s.repositoryId = request.repositoryId ∧
    ∃ r ∈ db.repositories, r.id = request.repositoryId ∧ r.ownerId = ownerId ∧
      r.revisionKind = some s.revisionKind ∧ r.revisionValue = some s.revisionValue
  /-- The citation is stored, under the fact that it names. -/
  cited : ∃ e ∈ db.evidence, e.snapshotId = request.snapshotId ∧ e.path = request.path ∧
    e.startLine = request.startLine ∧ e.endLine = request.endLine ∧
    Attached db e request.factId
  /-- The content is the text of the bytes that were sealed, and has the lines. -/
  content : ∃ content, response.content = some content ∧ response.truncated = false ∧
    (∀ source, SealedFrom db request.snapshotId request.path source ↔ source = utf8 content) ∧
    1 ≤ request.startLine ∧ request.startLine ≤ request.endLine ∧
    request.endLine ≤ logicalLineCount content

theorem verified_of_ready (hinj : Function.Injective sha256Hex)
    (h : read db fs ownerId request = .ok response) (hready : response.status = .ready) :
    Verified db ownerId request response := by
  rcases read_ready h hready with
    ⟨record, s, file, hrange, hrecord, hs, hrepo, hrevision, hcited, rfl⟩
  rcases getRecord_eq_ok.mp hrecord with ⟨hmem, hid, howner⟩
  rcases metadata_eq_ok.mp hs with ⟨hsnap, hvisible, _⟩
  rcases visible_iff.mp hvisible with ⟨hsid, hstate, _⟩
  rcases respond_ready hready with ⟨hshown, htruncated, hlines, hsealed⟩
  rw [hsid] at hsealed
  refine ⟨⟨s, hsnap, hsid, hstate, hrepo, record, hmem, hid, howner, hrevision⟩, ?_, ?_⟩
  · rw [← hsid]
    exact hasEvidenceReference_iff.mp hcited
  · rw [hshown]
    exact ⟨file.content, rfl, htruncated, fun source => sealedFrom_iff hinj hsealed, hrange.1,
      hrange.2, hlines⟩

end Reading

section Recording

variable [Unicode] [Hashing]

/-- What the extractors have stored for the sources of the snapshots: rows of evidence
    as they cite them, and file nodes with the hash of the bytes. -/
structure Recorded (db : Database) (sources : Str → Str → List UInt8) : Prop where
  schema : ∀ s ∈ db.snapshots, s.schemaVersion = "ri.v1".toList
  evidence : ∀ e ∈ db.evidence, ∃ cited, Cites e.path (sources e.snapshotId e.path) cited ∧
    e.startLine = cited.startLine ∧ e.endLine = cited.endLine
  fileNodes : ∀ n ∈ db.nodes, n.nodeKind = "file".toList → ∀ path, n.stableKey = fileKey path →
    n.properties = some (contentProperty (sources n.snapshotId path))

variable {source : List UInt8}

omit [Unicode] in
theorem contentSha256_contentProperty {n : RiNode}
    (h : n.properties = some (contentProperty source)) :
    contentSha256 n = some (sha256Prefixed source) := by
  rw [contentSha256, h]
  rfl

variable [Interpreter] {db : Database} {fs : FileSystem} {sources : Str → Str → List UInt8}

/-- A citation that was stored is verified as long as its file is unchanged. -/
theorem ready_of_recorded (hrec : Recorded db sources) {s : RiSnapshot} (hs : s ∈ db.snapshots)
    (hstate : s.state = .completed) {r : RepositoryRecord} (hr : r ∈ db.repositories)
    (hid : r.id = s.repositoryId) {e : RiEvidence} (he : e ∈ db.evidence)
    (hsnap : e.snapshotId = s.snapshotId) {factId : Str} (hfact : Attached db e factId)
    (hsealed : SealedFrom db s.snapshotId e.path source) {root : HostPath}
    (hfile : RegularFile fs r.localPath root e.path (sources s.snapshotId e.path))
    (hsize : (sources s.snapshotId e.path).length ≤ maxFilePreviewBytes) :
    ∃ response, read db fs r.ownerId ⟨s.repositoryId, s.snapshotId, factId, e.path, e.startLine,
      e.endLine⟩ = .ok response ∧ response.status = .ready := by
  rcases hrec.evidence e he with ⟨cited, hcites, hstart, hend⟩
  rw [hsnap] at hcites
  rcases hcites.within with ⟨⟨raw, hraw⟩, _, text, hzero, hsource, hone, hle, hlines⟩
  rcases normalizeRepoPath_plain hraw with ⟨segments, hpath, _⟩
  rw [← hstart] at hone
  rw [← hstart, ← hend] at hle
  rw [← hend] at hlines
  -- The preview is the text that the extractors have read.
  rw [hsource] at hfile hzero hsize
  have hpreview := readFile_regular hfile hpath.head_ne hpath.not_backslash hzero hsize
  -- The hash in the file node is the hash of its bytes.
  have hsealed' : SealedFrom db s.snapshotId e.path (utf8 text) := by
    rcases hsealed with ⟨n, hn, hnsnap, hkind, hkey, _⟩
    refine ⟨n, hn, hnsnap, hkind, hkey, ?_⟩
    rw [← hsource, ← hnsnap]
    exact contentSha256_contentProperty (hrec.fileNodes n hn hkind e.path hkey)
  -- The lookups find the rows.
  have hrecord : getRecord db s.repositoryId r.ownerId = .ok r := getRecord_eq_ok.mpr ⟨hr, hid, rfl⟩
  have hmetadata : metadata db r.ownerId s.snapshotId = .ok s := by
    refine metadata_eq_ok.mpr ⟨hs, visible_iff.mpr ⟨rfl, hstate, r, hr, hid, rfl⟩, ?_⟩
    rw [hrec.schema s hs]
    decide
  have hcited : hasEvidenceReference db s factId e.path e.startLine e.endLine = true :=
    hasEvidenceReference_iff.mpr ⟨e, he, hsnap, rfl, rfl, rfl, hfact⟩
  have hrevision : r.revisionKind = some s.revisionKind ∧
      r.revisionValue = some s.revisionValue := by
    rcases db.revision s hs with ⟨r', hr', hid', hkind, hvalue⟩
    rw [Rows.eq_of_key_eq db.repositories_key hr hr' (hid.trans hid'.symm)]
    exact ⟨hkind, hvalue⟩
  refine ⟨_, read_eq_respond ⟨hone, hle⟩ hrecord hmetadata rfl hrevision hcited hpreview, ?_⟩
  rw [respond_of_sealed rfl rfl rfl hlines hsealed']
  rfl

/-- A citation that is verified shows exactly the bytes that were sealed, and a
    citation that was stored is verified as long as its file is unchanged. -/
theorem read_exact (hinj : Function.Injective sha256Hex) (db : Database) (fs : FileSystem) :
    (∀ ownerId request response, read db fs ownerId request = .ok response →
        response.status = .ready → Verified db ownerId request response) ∧
      ∀ sources, Recorded db sources → ∀ s ∈ db.snapshots, s.state = .completed →
        ∀ r ∈ db.repositories, r.id = s.repositoryId →
        ∀ e ∈ db.evidence, e.snapshotId = s.snapshotId → ∀ factId, Attached db e factId →
        (∃ source, SealedFrom db s.snapshotId e.path source) →
        ∀ root, RegularFile fs r.localPath root e.path (sources s.snapshotId e.path) →
        (sources s.snapshotId e.path).length ≤ maxFilePreviewBytes →
        ∃ response, read db fs r.ownerId
            ⟨s.repositoryId, s.snapshotId, factId, e.path, e.startLine, e.endLine⟩ = .ok response ∧
          response.status = .ready := by
  constructor
  · exact fun _ _ _ h hready => verified_of_ready hinj h hready
  · intro sources hrec s hs hstate r hr hid e he hsnap factId hfact hsealed root hfile hsize
    rcases hsealed with ⟨source, hsealed⟩
    exact ready_of_recorded hrec hs hstate hr hid he hsnap hfact hsealed hfile hsize

end Recording

section Examples

/-- A hash without collisions that agrees with the real one on the text `a`. -/
@[reducible]
def smallHash : Hashing :=
  { sha256Hex := fun data =>
      if data = [97] then Sha256.hex [97]
      else List.replicate 65 'x' ++ data.map (fun b => Char.ofNat b.toNat) }

local instance citationUnicode : Unicode := asciiText

local instance citationInterpreter : Interpreter := cpython

local instance citationHashing : Hashing := smallHash

theorem smallHash_injective : Function.Injective sha256Hex := by
  have heq : smallHash.sha256Hex = (collisionFree [97]).sha256Hex := by
    funext data
    change (if data = [97] then _ else _) = (if data = [97] then _ else _)
    by_cases h : data = [97]
    · rw [if_pos h, if_pos h, h]
      rfl
    · rw [if_neg h, if_neg h]
  change Function.Injective smallHash.sha256Hex
  rw [heq]
  exact collisionFree_injective [97]

/-- One file with one line, cited as a whole. -/
def smallDatabase : Database :=
  { repositories := [⟨"repo".toList, "owner".toList, ["srv".toList], some "git".toList,
      some "rev".toList⟩]
    snapshots := [⟨"snap".toList, "repo".toList, "git".toList, "rev".toList, "ri.v1".toList,
      .completed⟩]
    nodes := [⟨1, "snap".toList, "file:a.txt".toList, "file".toList,
      some (contentProperty [97])⟩]
    edges := []
    observations := []
    evidence := [⟨"snap".toList, some 1, none, none, "a.txt".toList, 1, 1, 1⟩]
    repositories_key := List.nodup_singleton _
    snapshots_key := List.nodup_singleton _
    nodes_key := List.nodup_singleton _
    revision := fun s hs => by
      rw [List.mem_singleton.mp hs]
      exact ⟨_, List.mem_singleton_self _, rfl, rfl, rfl⟩ }

/-- The file system that has the file and nothing else. -/
def smallFiles : FileSystem :=
  { resolve := fun path => .ok path
    isFile := fun path => .ok (path = ["srv".toList, "a.txt".toList])
    size := fun _ => .ok 1
    content := fun _ => .ok [97] }

theorem smallDatabase_recorded : Recorded smallDatabase (fun _ _ => [97]) := by
  refine ⟨fun s hs => ?_, fun e he => ?_, fun n hn _ path _ => ?_⟩
  · rw [mem_singleton.mp hs]
  · rw [mem_singleton.mp he]
    have hnorm : normalizeRepoPath "a.txt".toList = .ok "a.txt".toList := by decide
    exact ⟨⟨"a.txt".toList, 1, 1, 1, "file".toList⟩, Cites.whole hnorm (by decide), rfl, rfl⟩
  · rw [mem_singleton.mp hn]

theorem read_exact_small : ∃ response, read smallDatabase smallFiles "owner".toList
      ⟨"repo".toList, "snap".toList, "file:a.txt".toList, "a.txt".toList, 1, 1⟩ = .ok response ∧
    response.status = .ready ∧
    Verified smallDatabase "owner".toList
      ⟨"repo".toList, "snap".toList, "file:a.txt".toList, "a.txt".toList, 1, 1⟩ response := by
  have hexact := read_exact smallHash_injective smallDatabase smallFiles
  have hfile : RegularFile smallFiles ["srv".toList] ["srv".toList] "a.txt".toList [97] :=
    ⟨rfl, rfl, by decide, rfl, rfl, by decide⟩
  have hready := hexact.2 _ smallDatabase_recorded _ (mem_singleton_self _) rfl _
    (mem_singleton_self _) rfl _ (mem_singleton_self _) rfl "file:a.txt".toList
    (.inl ⟨_, mem_singleton_self _, rfl, rfl, rfl⟩)
    ⟨[97], _, mem_singleton_self _, rfl, rfl, rfl, rfl⟩ ["srv".toList] hfile (by decide)
  rcases hready with ⟨response, hread, hstatus⟩
  exact ⟨response, hread, hstatus, hexact.1 _ _ _ hread hstatus⟩

end Examples

end Evidence

end Partha
